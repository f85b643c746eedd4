import Pskynet.Skynet.Coroutines

set_option autoImplicit false

namespace Pskynet.Skynet

structure Ledger (b : Books) : Prop where
  served : ∀ co r, b.serving co = some r →
    ∃ request : Request, b.requests[r]? = some request ∧
      b.sessionCoroutineId co = some request.session ∧
      b.sessionCoroutineAddress co = some request.source
  unserved : ∀ co, b.serving co = none →
    b.sessionCoroutineId co = none ∧ b.sessionCoroutineAddress co = none
  apart : ∀ co other r, b.serving co = some r → b.serving other = some r → co = other
  closed : ∀ (k : Nat) (closure : Closure), b.closures[k]? = some closure →
    ∃ (r : Nat) (request : Request), closure.request = some r ∧ b.requests[r]? = some request ∧
      closure.session = some request.session ∧ closure.address = request.source
  kept : ∀ co r k, b.serving co = some r → b.sessionResponse co = some (.closure k) →
    ∃ closure : Closure, b.closures[k]? = some closure ∧ closure.request = some r
  owner : ∀ co r (k : Nat) (closure : Closure), b.serving co = some r → b.closures[k]? = some closure →
    closure.request = some r → b.sessionResponse co = some (.closure k)
  once : ∀ (k l : Nat) (closure other : Closure), b.closures[k]? = some closure → b.closures[l]? = some other →
    closure.request = other.request → k = l

structure Clean (s : Service) : Prop extends Ledger s.toBooks where
  clean : ∀ co, (s.place co).free → s.serving co = none ∧ s.sessionResponse co = none

theorem Ledger.serves_of_id {b : Books} (ledger : Ledger b) {co session : Nat}
    (known : b.sessionCoroutineId co = some session) : ∃ r, b.serving co = some r := by
  cases now : b.serving co with
  | none =>
    rw [(ledger.unserved co now).1] at known
    contradiction
  | some r => exact ⟨r, rfl⟩

theorem Ledger.serves_of_address {b : Books} (ledger : Ledger b) {co address : Nat}
    (known : b.sessionCoroutineAddress co = some address) : ∃ r, b.serving co = some r := by
  cases now : b.serving co with
  | none =>
    rw [(ledger.unserved co now).2] at known
    contradiction
  | some r => exact ⟨r, rfl⟩

theorem Ledger.frame {a b : Books} (ledger : Ledger a) (id : b.sessionCoroutineId = a.sessionCoroutineId)
    (address : b.sessionCoroutineAddress = a.sessionCoroutineAddress)
    (response : b.sessionResponse = a.sessionResponse) (closures : b.closures = a.closures)
    (requests : b.requests = a.requests) (serving : b.serving = a.serving) : Ledger b := by
  obtain ⟨p1, p2, p3, p4, p5, p6, p7⟩ := ledger
  constructor <;> simp only [id, address, response, closures, requests, serving] <;> assumption

theorem releaseWatching_frame (b : Books) (address : Nat) :
    ∃ watching, b.releaseWatching address = { b with watchingService := watching } := by
  unfold Books.releaseWatching
  split
  · exact ⟨b.watchingService, rfl⟩
  · exact ⟨_, rfl⟩

theorem setPack_some {b : Books} {k i : Nat} {f : Pack} {closure : Closure}
    (found : (b.setPack k f).closures[i]? = some closure) :
    ∃ old, b.closures[i]? = some old ∧
      closure = { old with f := if k = i then f else old.f } := by
  simp only [Books.setPack, List.getElem?_modify] at found
  obtain ⟨old, known, rfl⟩ := Option.map_eq_some_iff.mp found
  refine ⟨old, known, ?_⟩
  split <;> rfl

theorem some_setPack {b : Books} {k i : Nat} {f : Pack} {old : Closure}
    (known : b.closures[i]? = some old) :
    (b.setPack k f).closures[i]? = some { old with f := if k = i then f else old.f } := by
  simp only [Books.setPack, List.getElem?_modify, known]
  split <;> rfl

theorem Ledger.setPack {b : Books} (ledger : Ledger b) (k : Nat) (f : Pack) :
    Ledger (b.setPack k f) := by
  obtain ⟨served, unserved, apart, closed, kept, owner, once⟩ := ledger
  refine ⟨served, unserved, apart, ?_, ?_, ?_, ?_⟩
  · intro i closure found
    obtain ⟨old, known, rfl⟩ := setPack_some found
    exact closed i old known
  · intro co r i serves answer
    obtain ⟨old, known, same⟩ := kept co r i serves answer
    exact ⟨_, some_setPack known, same⟩
  · intro co r i closure serves found same
    obtain ⟨old, known, rfl⟩ := setPack_some found
    exact owner co r i old serves known same
  · intro i j closure other found second same
    obtain ⟨old, known, rfl⟩ := setPack_some found
    obtain ⟨older, knew, rfl⟩ := setPack_some second
    exact once i j old older known knew same

theorem getElem?_append_singleton {α : Type} {l : List α} {x y : α} {k : Nat}
    (found : (l ++ [x])[k]? = some y) : l[k]? = some y ∨ k = l.length ∧ y = x := by
  rcases lt_trichotomy k l.length with before | same | beyond
  · rw [List.getElem?_append_left before] at found
    exact .inl found
  · subst same
    simp only [List.getElem?_concat_length, Option.some.injEq] at found
    exact .inr ⟨rfl, found.symm⟩
  · rw [List.getElem?_eq_none (by simp; omega)] at found
    contradiction

theorem getElem?_append_old {α : Type} {l m : List α} {x : α} {k : Nat} (found : l[k]? = some x) :
    (l ++ m)[k]? = some x := by
  rw [List.getElem?_append_left (List.getElem?_eq_some_iff.mp found).1, found]

theorem Ledger.release {b : Books} (ledger : Ledger b) (address k : Nat) (f : Pack) :
    Ledger ((b.releaseWatching address).setPack k f) := by
  obtain ⟨watching, same⟩ := releaseWatching_frame b address
  have released : Ledger { b with watchingService := watching } :=
    ledger.frame rfl rfl rfl rfl rfl rfl
  rw [same]
  exact released.setPack k f

theorem Ledger.start {b : Books} (ledger : Ledger b) (co session source : Nat)
    (idle : b.serving co = none) (clean : b.sessionResponse co = none) :
    Ledger (b.start co session source) := by
  obtain ⟨served, unserved, apart, closed, kept, owner, once⟩ := ledger
  have known : ∀ other r, b.serving other = some r → r < b.requests.length := by
    intro other r serves
    obtain ⟨request, found, _⟩ := served other r serves
    exact (List.getElem?_eq_some_iff.mp found).1
  have earlier : ∀ (k : Nat) (closure : Closure), b.closures[k]? = some closure →
      closure.request ≠ some b.requests.length := by
    intro k closure found same
    obtain ⟨r, request, is, asked, _⟩ := closed k closure found
    have within := (List.getElem?_eq_some_iff.mp asked).1
    rw [is, Option.some.injEq] at same
    omega
  refine ⟨?_, ?_, ?_, ?_, ?_, ?_, once⟩
  · intro other r serves
    by_cases same : other = co
    · subst same
      simp only [Books.start, Function.update_self, Option.some.injEq] at serves ⊢
      exact ⟨{ session := session, source := source }, by simp [← serves], rfl, rfl⟩
    · simp only [Books.start, Function.update_of_ne same] at serves ⊢
      obtain ⟨request, found, fields⟩ := served other r serves
      exact ⟨request, getElem?_append_old found, fields⟩
  · intro other serves
    by_cases same : other = co
    · subst same
      simp [Books.start] at serves
    · simp only [Books.start, Function.update_of_ne same] at serves ⊢
      exact unserved other serves
  · intro first second r serves again
    simp only [Books.start, Function.update_apply] at serves again
    grind -ring -linarith
  · intro k closure found
    obtain ⟨r, request, is, asked, fields⟩ := closed k closure found
    exact ⟨r, request, is, getElem?_append_old asked, fields⟩
  · intro other r k serves answer
    simp only [Books.start, Function.update_apply] at serves answer ⊢
    grind -ring -linarith
  · intro other r k closure serves found same
    simp only [Books.start, Function.update_apply] at serves found ⊢
    grind -ring -linarith

theorem Ledger.drop {a b : Books} (ledger : Ledger a) (co : Nat)
    (id : b.sessionCoroutineId = Function.update a.sessionCoroutineId co none)
    (address : b.sessionCoroutineAddress = Function.update a.sessionCoroutineAddress co none)
    (serving : b.serving = Function.update a.serving co none)
    (response : ∀ other, other ≠ co → b.sessionResponse other = a.sessionResponse other)
    (closures : b.closures = a.closures) (requests : b.requests = a.requests) : Ledger b := by
  obtain ⟨served, unserved, apart, closed, kept, owner, once⟩ := ledger
  have busy : ∀ other r, b.serving other = some r → other ≠ co ∧ a.serving other = some r := by
    intro other r serves
    rw [serving, Function.update_apply] at serves
    grind -ring -linarith
  refine ⟨?_, ?_, ?_, ?_, ?_, ?_, ?_⟩
  · intro other r serves
    obtain ⟨apart, before⟩ := busy other r serves
    rw [id, address, requests, Function.update_of_ne apart, Function.update_of_ne apart]
    exact served other r before
  · intro other serves
    rw [id, address]
    by_cases same : other = co
    · simp [same]
    · rw [serving, Function.update_of_ne same] at serves
      rw [Function.update_of_ne same, Function.update_of_ne same]
      exact unserved other serves
  · intro first second r serves again
    exact apart first second r (busy first r serves).2 (busy second r again).2
  · rw [closures, requests]
    exact closed
  · intro other r k serves answer
    obtain ⟨apart, before⟩ := busy other r serves
    rw [response other apart] at answer
    rw [closures]
    exact kept other r k before answer
  · intro other r k closure serves found same
    obtain ⟨apart, before⟩ := busy other r serves
    rw [closures] at found
    rw [response other apart]
    exact owner other r k closure before found same
  · rw [closures]
    exact once

theorem exit_frame (b : Books) (co : Nat) :
    ∃ watching, b.exit co = { b with
      watchingService := watching
      sessionCoroutineId := Function.update b.sessionCoroutineId co none
      sessionCoroutineAddress := Function.update b.sessionCoroutineAddress co none
      sessionResponse := Function.update b.sessionResponse co none
      serving := Function.update b.serving co none } := by
  unfold Books.exit
  cases b.sessionCoroutineAddress co with
  | none => exact ⟨_, rfl⟩
  | some address =>
    obtain ⟨watching, same⟩ := releaseWatching_frame b address
    exact ⟨watching, by simp [same]⟩

theorem Ledger.exit {b : Books} (ledger : Ledger b) (co : Nat) : Ledger (b.exit co) := by
  obtain ⟨watching, frame⟩ := exit_frame b co
  rw [frame]
  refine ledger.drop co rfl rfl rfl ?_ rfl rfl
  intro other apart
  simp [Function.update_of_ne apart]

theorem Ledger.fail {b : Books} (ledger : Ledger b) (co : Nat) : Ledger (b.fail co) := by
  unfold Books.fail
  split
  · exact ledger
  · exact ledger.drop co rfl rfl rfl (fun _ _ => rfl) rfl rfl

theorem Ledger.note {b : Books} (ledger : Ledger b) (co : Nat)
    (unanswered : b.sessionResponse co = none) :
    Ledger { b with sessionResponse := Function.update b.sessionResponse co (some .returned) } := by
  obtain ⟨served, unserved, apart, closed, kept, owner, once⟩ := ledger
  refine ⟨served, unserved, apart, closed, ?_, ?_, once⟩
  · intro other r k serves answer
    by_cases same : other = co
    · simp [same] at answer
    · simp only [Function.update_of_ne same] at answer
      exact kept other r k serves answer
  · intro other r k closure serves found is
    have answer := owner other r k closure serves found is
    by_cases same : other = co
    · rw [same, unanswered] at answer
      contradiction
    · simp only [Function.update_of_ne same]
      exact answer

theorem Ledger.ret {b : Books} (ledger : Ledger b) (co : Nat) : Ledger (b.ret co).1 := by
  unfold Books.ret
  split
  case h_1 => exact ledger
  case h_2 unanswered =>
    have noted := ledger.note co unanswered
    simp only
    split
    case h_1 => exact noted
    case h_2 =>
      split
      · exact noted
      · exact noted.frame rfl rfl rfl rfl rfl rfl

theorem Ledger.ask {b : Books} (ledger : Ledger b) (co address : Nat) (watching : Nat → Option Nat)
    (unanswered : b.sessionResponse co = none) (known : b.sessionCoroutineAddress co = some address) :
    Ledger { b with
      watchingService := watching
      sessionResponse := Function.update b.sessionResponse co (some (.closure b.closures.length))
      closures := b.closures ++
        [{ request := b.serving co, address := address, session := b.sessionCoroutineId co,
           f := .ready }] } := by
  have servesOf := @ledger.serves_of_address
  obtain ⟨served, unserved, apart, closed, kept, owner, once⟩ := ledger
  obtain ⟨r, serves⟩ := servesOf known
  obtain ⟨request, asked, id, source⟩ := served co r serves
  -- The new closure is the only one for its request.
  have first : ∀ (k : Nat) (closure : Closure), b.closures[k]? = some closure →
      closure.request ≠ some r := by
    intro k closure found same
    have answer := owner co r k closure serves found same
    rw [unanswered] at answer
    contradiction
  refine ⟨served, unserved, apart, ?_, ?_, ?_, ?_⟩
  · intro k closure found
    rcases getElem?_append_singleton found with old | ⟨_, rfl⟩
    · exact closed k closure old
    · rw [source, Option.some.injEq] at known
      exact ⟨r, request, serves, asked, id, known.symm⟩
  · intro other r' k serving answer
    by_cases same : other = co
    · subst same
      simp only [Function.update_self, Option.some.injEq, Answer.closure.injEq] at answer
      subst answer
      exact ⟨_, List.getElem?_concat_length, serving⟩
    · simp only [Function.update_of_ne same] at answer
      obtain ⟨closure, found, is⟩ := kept other r' k serving answer
      exact ⟨closure, getElem?_append_old found, is⟩
  · intro other r' k closure serving found is
    rcases getElem?_append_singleton found with old | ⟨rfl, rfl⟩
    · have answer := owner other r' k closure serving old is
      have different : other ≠ co := by
        intro same
        rw [same, unanswered] at answer
        contradiction
      simpa [Function.update_of_ne different] using answer
    · have same : other = co := apart other co r' serving is
      simp [same]
  · intro k l closure other found second same
    rcases getElem?_append_singleton found with old | ⟨rfl, rfl⟩
    · rcases getElem?_append_singleton second with older | ⟨rfl, rfl⟩
      · exact once k l closure other old older same
      · exact absurd (same.trans serves) (first k closure old)
    · rcases getElem?_append_singleton second with older | ⟨rfl, rfl⟩
      · exact absurd (same.symm.trans serves) (first l other older)
      · rfl

theorem Ledger.response {b : Books} (ledger : Ledger b) (co : Nat) : Ledger (b.response co).1 := by
  unfold Books.response
  split
  case h_1 => exact ledger
  case h_2 unanswered =>
    split
    case h_1 => exact ledger
    case h_2 address known =>
      split
      case h_1 => exact ledger
      case h_2 =>
        exact ledger.ask co address _ unanswered known

theorem Ledger.test {b : Books} (ledger : Ledger b) (k : Nat) : Ledger (b.test k) := by
  unfold Books.test
  split
  · exact ledger
  · split
    · exact ledger.release _ k .dead
    · exact ledger

theorem Ledger.respond {b : Books} (ledger : Ledger b) (k : Nat) (ok packs : Bool) :
    Ledger (b.respond k ok packs) := by
  unfold Books.respond
  split
  case h_1 => exact ledger
  case h_2 closure _ =>
    split
    case h_1 => exact ledger
    case h_2 => exact ledger.setPack k .gone
    case h_3 =>
      simp only
      split
      · exact ledger.release _ k .gone
      · split
        · exact ledger
        · refine Ledger.release ?_ _ k .gone
          exact ledger.frame rfl rfl rfl rfl rfl rfl

theorem coCreate_free {s : Service} (scheduled : Scheduled s) (place : Place) :
    (s.place (s.coCreate place).1).free :=
  (coCreate_created scheduled.toTables place).free

theorem Clean.booked {s : Service} (scheduled : Scheduled s) (clean : Clean s) (action : Action)
    (place : Nat → Place) (after : Books) (booked : Booked s place action after) :
    Ledger after := by
  have ledger := clean.toLedger
  cases booked with
  | same => exact ledger
  | started session source unpacks =>
    have idle := clean.clean _ (coCreate_free scheduled .fresh)
    exact ledger.start _ session source idle.1 idle.2
  | told session source order dead =>
    have idle := clean.clean _ (coCreate_free scheduled .fresh)
    refine Ledger.exit ?_ _
    exact (ledger.start _ session source idle.1 idle.2).frame rfl rfl rfl rfl rfl rfl
  | died => exact ledger.frame rfl rfl rfl rfl rfl rfl
  | returned co => exact ledger.ret co
  | asked co => exact ledger.response co
  | tested k => exact ledger.test k
  | responded k ok packs => exact ledger.respond k ok packs
  | finished co => exact ledger.exit co
  | failed co => exact ledger.fail co
  | left => exact ledger.frame rfl rfl rfl rfl rfl rfl

theorem ret_frame (b : Books) (co : Nat) :
    ∃ answer replies, (b.ret co).1 = { b with
      sessionResponse := Function.update b.sessionResponse co answer
      replies := replies } := by
  unfold Books.ret
  split
  case h_1 => exact ⟨b.sessionResponse co, b.replies, by simp⟩
  case h_2 =>
    simp only
    split
    · exact ⟨_, _, rfl⟩
    · split
      · exact ⟨_, _, rfl⟩
      · exact ⟨_, _, rfl⟩

theorem response_frame (b : Books) (co : Nat) :
    ∃ answer watching closures, (b.response co).1 = { b with
      watchingService := watching
      sessionResponse := Function.update b.sessionResponse co answer
      closures := closures } := by
  unfold Books.response
  split
  case h_1 => exact ⟨b.sessionResponse co, b.watchingService, b.closures, by simp⟩
  case h_2 =>
    split
    case h_1 => exact ⟨b.sessionResponse co, b.watchingService, b.closures, by simp⟩
    case h_2 =>
      split
      case h_1 => exact ⟨b.sessionResponse co, b.watchingService, b.closures, by simp⟩
      case h_2 => exact ⟨_, _, _, rfl⟩

theorem test_frame (b : Books) (k : Nat) :
    ∃ watching closures,
      b.test k = { b with watchingService := watching, closures := closures } := by
  unfold Books.test
  split
  case h_1 => exact ⟨_, _, rfl⟩
  case h_2 closure _ =>
    split
    · obtain ⟨watching, same⟩ := releaseWatching_frame b closure.address
      rw [same]
      exact ⟨_, _, rfl⟩
    · exact ⟨_, _, rfl⟩

theorem respond_frame (b : Books) (k : Nat) (ok packs : Bool) :
    ∃ watching closures replies, b.respond k ok packs =
      { b with watchingService := watching, closures := closures, replies := replies } := by
  unfold Books.respond
  split
  case h_1 => exact ⟨_, _, _, rfl⟩
  case h_2 closure _ =>
    split
    case h_1 => exact ⟨_, _, _, rfl⟩
    case h_2 => exact ⟨_, _, _, rfl⟩
    case h_3 =>
      simp only
      split
      · obtain ⟨watching, same⟩ := releaseWatching_frame b closure.address
        rw [same]
        exact ⟨_, _, _, rfl⟩
      · split
        · exact ⟨_, _, _, rfl⟩
        · generalize b.replies ++ _ = replies
          obtain ⟨watching, same⟩ :=
            releaseWatching_frame { b with replies := replies } closure.address
          rw [same]
          exact ⟨_, _, _, rfl⟩

theorem fail_others (b : Books) (co other : Nat) (apart : other ≠ co) :
    (b.fail co).serving other = b.serving other ∧
      (b.fail co).sessionResponse other = b.sessionResponse other := by
  unfold Books.fail
  split
  · exact ⟨rfl, rfl⟩
  · simp [Function.update_of_ne apart]

theorem exit_serving (b : Books) (co other : Nat) :
    (b.exit co).serving other = (if other = co then none else b.serving other) ∧
      (b.exit co).sessionResponse other = if other = co then none else b.sessionResponse other :=
  ⟨Function.update_apply .., Function.update_apply ..⟩

theorem Booked.others {s : Service} {place : Nat → Place} {action : Action} {after : Books}
    (booked : Booked s place action after) (co : Nat) (rests : s.mode ≠ .running co)
    (apart : co = (s.coCreate .fresh).1 →
      (place co).free ∧ s.serving co = none ∧ s.sessionResponse co = none) :
    after.serving co = s.serving co ∧ after.sessionResponse co = s.sessionResponse co := by
  have different : ∀ other, s.mode = .running other → co ≠ other := by
    intro other running same
    exact rests (same ▸ running)
  cases booked with
  | same => exact ⟨rfl, rfl⟩
  | started session source unpacks busy =>
    have other : co ≠ (s.coCreate .fresh).1 := by
      intro same
      rw [← same, (apart same).1] at busy
      contradiction
    simp [Books.start, Function.update_of_ne other]
  | told session source order dead =>
    rw [(exit_serving _ _ co).1, (exit_serving _ _ co).2]
    by_cases same : co = (s.coCreate .fresh).1
    · obtain ⟨_, idle, unanswered⟩ := apart same
      rw [idle, unanswered]
      simp [same]
    · simp [same, Books.start]
  | died => exact ⟨rfl, rfl⟩
  | returned other running =>
    obtain ⟨_, _, frame⟩ := ret_frame s.toBooks other
    rw [frame]
    simp [different other running]
  | asked other running =>
    obtain ⟨_, _, _, frame⟩ := response_frame s.toBooks other
    rw [frame]
    simp [different other running]
  | tested k =>
    obtain ⟨_, _, frame⟩ := test_frame s.toBooks k
    rw [frame]
    exact ⟨rfl, rfl⟩
  | responded k ok packs =>
    obtain ⟨_, _, _, frame⟩ := respond_frame s.toBooks k ok packs
    rw [frame]
    exact ⟨rfl, rfl⟩
  | finished other running =>
    rw [(exit_serving _ _ co).1, (exit_serving _ _ co).2]
    simp [different other running]
  | failed other running => exact fail_others s.toBooks other co (different other running)
  | left => exact ⟨rfl, rfl⟩

theorem Scheduled.rests {s : Service} (scheduled : Scheduled s) (co : Nat)
    (rests : s.place co ≠ .running) : s.mode ≠ .running co := by
  intro running
  exact rests (scheduled.running co running)

theorem Clean.step {s t : Service} (scheduled : Scheduled s) (clean : Clean s) (action : Action)
    (stepped : Stepped s action t) : Clean t := by
  refine ⟨clean.booked scheduled action _ _ stepped.books, ?_⟩
  intro co free
  rcases stepped.free co free with before | ⟨_, finished⟩
  · have idle := clean.clean co before
    have rests : s.mode ≠ .running co := by
      refine scheduled.rests co ?_
      intro running
      rw [running] at before
      contradiction
    have same := stepped.books.others co rests (fun _ => ⟨free, idle⟩)
    rw [same.1, same.2]
    exact idle
  · rw [finished, (exit_serving _ co co).1, (exit_serving _ co co).2]
    simp

structure Sound (s : Service) : Prop where
  scheduled : Scheduled s
  clean : Clean s

theorem start_sound (session : Nat) : Sound (Service.start session) := by
  refine ⟨⟨⟨?_, ?_, ?_, ?_, ?_, ?_, ?_⟩, ?_⟩, ⟨⟨?_, ?_, ?_, ?_, ?_, ?_, ?_⟩, ?_⟩⟩ <;>
    simp only [Service.start] <;> grind -ring -linarith [Function.update_apply, Place.awaits]

theorem Sound.step {s t : Service} (sound : Sound s) (action : Action)
    (taken : s.step action = some t) : Sound t ∧ Stepped s action t := by
  obtain ⟨scheduled, stepped⟩ := step_stepped sound.scheduled action taken
  exact ⟨⟨scheduled, sound.clean.step sound.scheduled action stepped⟩, stepped⟩

end Pskynet.Skynet
