import Pskynet.Skynet.Ledger

set_option autoImplicit false

namespace Pskynet.Skynet

open Transition

def Books.sent (b : Books) (r : Nat) : Nat :=
  b.replies.countP fun reply => reply.request = some r

-- The request of a coroutine has no answer yet: `session_response` says so, or its closure has not
-- been called, and no error was reported.
def Books.pending (b : Books) (co : Nat) : Prop :=
  (∀ r, b.serving co = some r → b.reported r = false) ∧
    match b.sessionResponse co with
    | none => True
    | some .returned => False
    | some (.closure k) => ∀ closure : Closure, b.closures[k]? = some closure → closure.f = .ready

def Books.called (b : Books) (co : Nat) : Prop :=
  ∃ session, b.sessionCoroutineId co = some session ∧ session ≠ 0

-- An error is raised, or the service exits, only before the answer; and no answer follows it.
def AnswersFirst (s : Service) : Action → Prop
  | .raise => ∀ co, s.mode = .running co → s.called co → s.pending co
  | .ret => ∀ co, s.mode = .running co → s.called co → s.sessionResponse co = none →
      ∀ r, s.serving co = some r → s.reported r = false
  | .respond k _ _ => ∀ closure : Closure, s.closures[k]? = some closure → closure.f = .ready →
      closure.session ≠ some 0 → ∀ r, closure.request = some r → s.reported r = false
  | .exit => ∀ co ∈ s.callers s.coroutines, s.pending co
  | _ => True

structure Answered (b : Books) : Prop where
  labelled : ∀ reply ∈ b.replies, ∃ (r : Nat) (request : Request), reply.request = some r ∧
    b.requests[r]? = some request ∧ reply.address = some request.source ∧
      reply.session = some request.session
  once : ∀ (r : Nat) (request : Request), b.requests[r]? = some request → request.session ≠ 0 →
    b.sent r ≤ 1
  unanswered : ∀ co r, b.serving co = some r → b.reported r = false →
    b.sessionResponse co = none → b.sent r = 0
  uncalled : ∀ (k : Nat) (closure : Closure) (r : Nat), b.closures[k]? = some closure →
    closure.request = some r → closure.f = .ready → b.reported r = false → b.sent r = 0

theorem Answered.fresh {b : Books} (answered : Answered b) (r : Nat)
    (beyond : b.requests.length ≤ r) : b.sent r = 0 := by
  refine List.countP_eq_zero.mpr ?_
  intro reply inside
  obtain ⟨r', request, is, known, _⟩ := answered.labelled reply inside
  have within := (List.getElem?_eq_some_iff.mp known).1
  simp only [is, Option.some.injEq, decide_eq_true_eq]
  omega

theorem Answered.frame {a b : Books} (answered : Answered a) (replies : b.replies = a.replies)
    (requests : b.requests = a.requests) (serving : b.serving = a.serving)
    (reported : b.reported = a.reported) (response : b.sessionResponse = a.sessionResponse)
    (closures : b.closures = a.closures) : Answered b := by
  obtain ⟨p1, p2, p3, p4⟩ := answered
  have sent : b.sent = a.sent := by
    funext r
    simp only [Books.sent, replies]
  constructor <;> simp only [replies, requests, serving, reported, response, closures, sent] <;>
    assumption

theorem Answered.close {a b : Books} (answered : Answered a) (replies : b.replies = a.replies)
    (requests : b.requests = a.requests)
    (reported : ∀ r, b.reported r = false → a.reported r = false)
    (open_ : ∀ co r, b.serving co = some r → b.sessionResponse co = none →
      a.serving co = some r ∧ a.sessionResponse co = none)
    (ready : ∀ (k : Nat) (closure : Closure), b.closures[k]? = some closure → closure.f = .ready →
      a.closures[k]? = some closure) : Answered b := by
  have sent : b.sent = a.sent := by
    funext r
    simp only [Books.sent, replies]
  refine ⟨?_, ?_, ?_, ?_⟩
  · rw [replies, requests]
    exact answered.labelled
  · rw [requests, sent]
    exact answered.once
  · intro co r serves quiet none_
    obtain ⟨before, empty⟩ := open_ co r serves none_
    rw [sent]
    exact answered.unanswered co r before (reported r quiet) empty
  · intro k closure r found is packs quiet
    rw [sent]
    exact answered.uncalled k closure r (ready k closure found packs) is packs (reported r quiet)

theorem Answered.send {a b : Books} (answered : Answered a) (reply : Reply) (r : Nat)
    (request : Request) (is : reply.request = some r) (known : a.requests[r]? = some request)
    (address : reply.address = some request.source) (session : reply.session = some request.session)
    (replies : b.replies = a.replies ++ [reply]) (requests : b.requests = a.requests)
    (reported : ∀ other, b.reported other = false → a.reported other = false)
    (first : request.session ≠ 0 → a.sent r = 0)
    (open_ : ∀ co r', b.serving co = some r' → b.reported r' = false → b.sessionResponse co = none →
      r' ≠ r ∧ a.serving co = some r' ∧ a.sessionResponse co = none)
    (ready : ∀ (k : Nat) (closure : Closure) (r' : Nat), b.closures[k]? = some closure →
      closure.request = some r' → closure.f = .ready → b.reported r' = false →
      r' ≠ r ∧ a.closures[k]? = some closure) : Answered b := by
  have sent : ∀ r', b.sent r' = a.sent r' + if r' = r then 1 else 0 := by
    intro r'
    simp only [Books.sent, replies, List.countP_append, List.countP_singleton, is]
    grind -ring -linarith
  refine ⟨?_, ?_, ?_, ?_⟩
  · intro other inside
    rw [replies] at inside
    rw [requests]
    rcases List.mem_append.mp inside with old | new
    · exact answered.labelled other old
    · rw [List.mem_singleton.mp new]
      exact ⟨r, request, is, known, address, session⟩
  · intro r' asked found nonzero
    rw [requests] at found
    rw [sent]
    split
    case isTrue same =>
      subst same
      rw [known, Option.some.injEq] at found
      subst found
      rw [first nonzero]
    case isFalse => exact answered.once r' asked found nonzero
  · intro co r' serves quiet none_
    obtain ⟨apart, before, empty⟩ := open_ co r' serves quiet none_
    rw [sent, if_neg apart]
    exact answered.unanswered co r' before (reported r' quiet) empty
  · intro k closure r' found for_ packs quiet
    obtain ⟨apart, before⟩ := ready k closure r' found for_ packs quiet
    rw [sent, if_neg apart]
    exact answered.uncalled k closure r' before for_ packs (reported r' quiet)

theorem Answered.pending {b : Books} (ledger : Ledger b) (answered : Answered b) (co r : Nat)
    (serves : b.serving co = some r) (pending : b.pending co) : b.sent r = 0 := by
  obtain ⟨quiet, state⟩ := pending
  split at state
  case h_1 empty => exact answered.unanswered co r serves (quiet r serves) empty
  case h_2 => contradiction
  case h_3 k answer =>
    obtain ⟨closure, found, is⟩ := ledger.kept co r k serves answer
    exact answered.uncalled k closure r found is (state closure found) (quiet r serves)

theorem Answered.start {b : Books} (answered : Answered b) (co session source : Nat) :
    Answered (b.start co session source) := by
  have sent : (b.start co session source).sent = b.sent := rfl
  obtain ⟨labelled, once, unanswered, uncalled⟩ := answered
  have fresh := Answered.fresh ⟨labelled, once, unanswered, uncalled⟩
  refine ⟨?_, ?_, ?_, uncalled⟩
  · intro reply inside
    obtain ⟨r, request, is, known, fields⟩ := labelled reply inside
    exact ⟨r, request, is, getElem?_append_old known, fields⟩
  · intro r request known nonzero
    rw [sent]
    rcases getElem?_append_singleton known with old | ⟨rfl, _⟩
    · exact once r request old nonzero
    · simp [fresh b.requests.length (le_refl _)]
  · intro other r serves quiet none_
    rw [sent]
    by_cases same : other = co
    · subst same
      simp only [Books.start, Function.update_self, Option.some.injEq] at serves
      exact fresh r serves.le
    · simp only [Books.start, Function.update_of_ne same] at serves
      exact unanswered other r serves quiet none_

theorem Answered.exit {b : Books} (answered : Answered b) (co : Nat) : Answered (b.exit co) := by
  obtain ⟨watching, frame⟩ := exit_frame b co
  rw [frame]
  refine answered.close rfl rfl (fun _ quiet => quiet) ?_ (fun _ _ found _ => found)
  intro other r serves none_
  by_cases same : other = co
  · simp [same] at serves
  · simp only [Function.update_of_ne same] at serves none_
    exact ⟨serves, none_⟩

theorem Answered.fail {b : Books} (ledger : Ledger b) (answered : Answered b) (co : Nat)
    (first : b.called co → b.pending co) : Answered (b.fail co) := by
  unfold Books.fail
  split
  case h_1 => exact answered
  case h_2 session known =>
    obtain ⟨r, serves⟩ := ledger.serves_of_id known
    obtain ⟨request, asked, id, source⟩ := ledger.served co r serves
    have quieter : ∀ other, Function.update b.reported r true other = false →
        other ≠ r ∧ b.reported other = false := by
      intro other quiet
      by_cases same : other = r
      · simp [same] at quiet
      · simpa [Function.update_of_ne same, same] using quiet
    have others : ∀ other r', Function.update b.serving co none other = some r' →
        b.serving other = some r' := by
      intro other r' still
      by_cases same : other = co
      · simp [same] at still
      · simpa [Function.update_of_ne same] using still
    simp only [serves, Option.elim_some]
    split
    case isTrue =>
      refine answered.close rfl rfl (fun other quiet => (quieter other quiet).2) ?_
        (fun _ _ found _ => found)
      intro other r' still none_
      exact ⟨others other r' still, none_⟩
    case isFalse nonzero =>
      have zero : b.sent r = 0 :=
        answered.pending ledger co r serves (first ⟨session, known, nonzero⟩)
      refine answered.send (b.reply co .error) r request serves asked source id rfl rfl
        (fun other quiet => (quieter other quiet).2) (fun _ => zero) ?_ ?_
      · intro other r' still quiet none_
        exact ⟨(quieter r' quiet).1, others other r' still, none_⟩
      · intro k closure r' found _ _ quiet
        exact ⟨(quieter r' quiet).1, found⟩

theorem Answered.ret {b : Books} (ledger : Ledger b) (answered : Answered b) (co : Nat)
    (first : b.called co → b.sessionResponse co = none →
      ∀ r, b.serving co = some r → b.reported r = false) : Answered (b.ret co).1 := by
  unfold Books.ret
  split
  case h_1 => exact answered
  case h_2 unanswered =>
    have others : ∀ other, Function.update b.sessionResponse co (some .returned) other = none →
        other ≠ co ∧ b.sessionResponse other = none := by
      intro other none_
      by_cases same : other = co
      · simp [same] at none_
      · simpa [Function.update_of_ne same, same] using none_
    have noted : Answered { b with
        sessionResponse := Function.update b.sessionResponse co (some .returned) } := by
      refine answered.close rfl rfl (fun _ quiet => quiet) ?_ (fun _ _ found _ => found)
      intro other r still none_
      exact ⟨still, (others other none_).2⟩
    simp only
    split
    case h_1 => exact noted
    case h_2 address known =>
      split
      case isTrue => exact noted
      case isFalse =>
        obtain ⟨r, serves⟩ := ledger.serves_of_address known
        obtain ⟨request, asked, id, source⟩ := ledger.served co r serves
        refine answered.send (b.reply co .response) r request serves asked source id rfl rfl
          (fun _ quiet => quiet) ?_ ?_ ?_
        · intro nonzero
          have quiet := first ⟨request.session, id, nonzero⟩ unanswered r serves
          exact answered.unanswered co r serves quiet unanswered
        · intro other r' still _ none_
          obtain ⟨apart, before⟩ := others other none_
          refine ⟨?_, still, before⟩
          intro same
          exact apart (ledger.apart other co r' still (same ▸ serves))
        · intro k closure r' found is _ _
          refine ⟨?_, found⟩
          intro same
          have answer := ledger.owner co r k closure serves found (same ▸ is)
          rw [unanswered] at answer
          contradiction

theorem Answered.response {b : Books} (answered : Answered b) (co : Nat) :
    Answered (b.response co).1 := by
  unfold Books.response
  split
  case h_1 => exact answered
  case h_2 unanswered =>
    split
    case h_1 => exact answered
    case h_2 address known =>
      split
      case h_1 => exact answered
      case h_2 =>
        obtain ⟨labelled, once, free, uncalled⟩ := answered
        refine ⟨labelled, once, ?_, ?_⟩
        · intro other r serves quiet none_
          by_cases same : other = co
          · simp [same] at none_
          · simp only [Function.update_of_ne same] at none_
            exact free other r serves quiet none_
        · intro k closure r found is packs quiet
          rcases getElem?_append_singleton found with old | ⟨_, rfl⟩
          · exact uncalled k closure r old is packs quiet
          · exact free co r is quiet unanswered

theorem setPack_ready {b : Books} {k i : Nat} {f : Pack} {closure : Closure} (used : f ≠ .ready)
    (found : (b.setPack k f).closures[i]? = some closure) (ready : closure.f = .ready) :
    k ≠ i ∧ b.closures[i]? = some closure := by
  obtain ⟨old, known, rfl⟩ := setPack_some found
  by_cases same : k = i
  · simp only [same, if_true] at ready
    contradiction
  · refine ⟨same, ?_⟩
    rw [known]
    simp [same]

theorem Answered.release {b : Books} (answered : Answered b) (address k : Nat) (f : Pack)
    (used : f ≠ .ready) : Answered ((b.releaseWatching address).setPack k f) := by
  obtain ⟨watching, same⟩ := releaseWatching_frame b address
  rw [same]
  refine answered.close rfl rfl (fun _ quiet => quiet) (fun _ _ still none_ => ⟨still, none_⟩) ?_
  intro i closure found ready
  exact (setPack_ready used found ready).2

theorem Answered.test {b : Books} (answered : Answered b) (k : Nat) : Answered (b.test k) := by
  unfold Books.test
  split
  · exact answered
  · split
    · exact answered.release _ k .dead (by simp)
    · exact answered

theorem Answered.respond {b : Books} (ledger : Ledger b) (answered : Answered b) (k : Nat)
    (ok packs : Bool)
    (first : ∀ closure : Closure, b.closures[k]? = some closure → closure.f = .ready →
      closure.session ≠ some 0 → ∀ r, closure.request = some r → b.reported r = false) :
    Answered (b.respond k ok packs) := by
  unfold Books.respond
  split
  case h_1 => exact answered
  case h_2 closure found =>
    split
    case h_1 => exact answered
    case h_2 =>
      refine answered.close rfl rfl (fun _ quiet => quiet) (fun _ _ still none_ => ⟨still, none_⟩) ?_
      intro i other known ready
      exact (setPack_ready (by simp) known ready).2
    case h_3 ready =>
      simp only
      split
      · exact answered.release _ k .gone (by simp)
      · split
        · exact answered
        · obtain ⟨r, request, is, asked, session, address⟩ := ledger.closed k closure found
          generalize sent : (⟨closure.request, some closure.address, closure.session,
            if ok then .response else .error⟩ : Reply) = reply
          obtain ⟨watching, same⟩ := releaseWatching_frame
            { b with replies := b.replies ++ [reply] } closure.address
          rw [same]
          refine answered.send reply r request (sent ▸ is) asked (sent ▸ congrArg some address)
            (sent ▸ session) rfl rfl (fun _ quiet => quiet) ?_ ?_ ?_
          · intro nonzero
            have wanted : closure.session ≠ some 0 := by
              rw [session]
              simpa using nonzero
            have quiet := first closure found ready wanted r is
            exact answered.uncalled k closure r found is ready quiet
          · intro co r' still _ none_
            refine ⟨?_, still, none_⟩
            intro equal
            have answer := ledger.owner co r k closure (equal ▸ still) found is
            exact absurd (answer.symm.trans none_) (by simp)
          · intro i other r' known for_ open_ _
            obtain ⟨apart, before⟩ := setPack_ready (by simp) known open_
            refine ⟨?_, before⟩
            intro equal
            exact apart (ledger.once k i closure other found before (by rw [is, for_, equal]))

theorem countP_le_one {l : List Nat} (p : Nat → Bool) (nodup : l.Nodup)
    (one : ∀ x ∈ l, ∀ y ∈ l, p x → p y → x = y) : l.countP p ≤ 1 := by
  induction l with
  | nil => simp
  | cons head tail ih =>
    obtain ⟨absent, rest⟩ := List.nodup_cons.mp nodup
    by_cases here : p head
    · have none_ : tail.countP p = 0 := by
        refine List.countP_eq_zero.mpr ?_
        intro x inside also
        have same := one head (by simp) x (by simp [inside]) here also
        exact absent (same ▸ inside)
      simp [here, none_]
    · simp only [here, List.countP_cons_of_neg, Bool.false_eq_true, not_false_eq_true]
      refine ih rest ?_
      intro x inside y also
      exact one x (by simp [inside]) y (by simp [also])

theorem callers_called {b : Books} {count co : Nat} (inside : co ∈ b.callers count) :
    b.called co := by
  simp only [Books.callers, List.mem_filter, Bool.and_eq_true, Option.any_eq_true] at inside
  obtain ⟨_, ⟨session, known, nonzero⟩, _⟩ := inside
  exact ⟨session, known, by simpa using nonzero⟩

theorem Answered.report {b : Books} (ledger : Ledger b) (answered : Answered b) (count : Nat)
    (first : ∀ co ∈ b.callers count, b.pending co) : Answered (b.report count) := by
  have sent : ∀ r, (b.report count).sent r =
      b.sent r + (b.callers count).countP fun co => b.serving co = some r := by
    intro r
    simp only [Books.sent, Books.report, List.countP_append, List.countP_map]
    rfl
  have quieter : ∀ r, (b.report count).reported r = false →
      b.reported r = false ∧ (b.report count).sent r = b.sent r := by
    intro r quiet
    simp only [Books.report, Bool.or_eq_false_iff, List.any_eq_false, beq_iff_eq] at quiet
    refine ⟨quiet.1, ?_⟩
    rw [sent, List.countP_eq_zero.mpr (by simpa using quiet.2), Nat.add_zero]
  refine ⟨?_, ?_, ?_, ?_⟩
  · intro reply inside
    rcases List.mem_append.mp inside with old | new
    · exact answered.labelled reply old
    · obtain ⟨co, caller, rfl⟩ := List.mem_map.mp new
      obtain ⟨session, known, _⟩ := callers_called caller
      obtain ⟨r, serves⟩ := ledger.serves_of_id known
      obtain ⟨request, asked, id, source⟩ := ledger.served co r serves
      exact ⟨r, request, serves, asked, source, id⟩
  · intro r request known nonzero
    rw [sent]
    by_cases asked : ∃ co ∈ b.callers count, b.serving co = some r
    · obtain ⟨co, caller, serves⟩ := asked
      rw [answered.pending ledger co r serves (first co caller), Nat.zero_add]
      refine countP_le_one _ (List.nodup_range.filter _) ?_
      intro x _ y _ left right
      exact ledger.apart x y r (by simpa using left) (by simpa using right)
    · rw [List.countP_eq_zero.mpr (by simpa using asked)]
      exact answered.once r request known nonzero
  · intro co r serves quiet none_
    obtain ⟨before, same⟩ := quieter r quiet
    rw [same]
    exact answered.unanswered co r serves before none_
  · intro k closure r found is ready quiet
    obtain ⟨before, same⟩ := quieter r quiet
    rw [same]
    exact answered.uncalled k closure r found is ready before

theorem Answered.step {s t : Service} (sound : Sound s) (answered : Answered s.toBooks)
    (action : Action) (stepped : Stepped s action t) (first : AnswersFirst s action) :
    Answered t.toBooks := by
  have ledger := sound.clean.toLedger
  have booked := stepped.books
  generalize t.toBooks = after at booked
  cases booked with
  | same => exact answered
  | started session source unpacks => exact answered.start _ session source
  | told session source order dead =>
    refine Answered.exit ?_ _
    exact (answered.start _ session source).frame rfl rfl rfl rfl rfl rfl
  | died => exact answered.frame rfl rfl rfl rfl rfl rfl
  | returned co running => exact answered.ret ledger co (first co running)
  | asked co => exact answered.response co
  | tested k => exact answered.test k
  | responded k ok packs => exact answered.respond ledger k ok packs first
  | finished co => exact answered.exit co
  | failed co running => exact answered.fail ledger co (first co running)
  | left => exact answered.report ledger _ first

theorem start_answered (session : Nat) : Answered (Service.start session).toBooks := by
  constructor <;> simp [Service.start, Books.sent]

theorem answered_once {session : Nat} {final : Service}
    (path : Path Service.step AnswersFirst (Service.start session) final) :
    (∀ (r : Nat) (request : Request), final.requests[r]? = some request → request.session ≠ 0 →
      (final.replies.countP fun reply => reply.request = some r) ≤ 1) ∧
    ∀ reply ∈ final.replies, ∃ (r : Nat) (request : Request), reply.request = some r ∧
      final.requests[r]? = some request ∧ reply.address = some request.source ∧
        reply.session = some request.session := by
  have both : Sound final ∧ Answered final.toBooks := by
    refine path.invariant (fun s => Sound s ∧ Answered s.toBooks) ?_
      ⟨start_sound session, start_answered session⟩
    intro s action t before first taken
    obtain ⟨sound, stepped⟩ := before.1.step action taken
    exact ⟨sound, before.2.step before.1 action stepped first⟩
  exact ⟨both.2.once, both.2.labelled⟩

def answerThenError : List Action :=
  [.request 1 7 true true, .askResponse, .respond 0 true true, .finish, .awake, .drain, .done,
    .request 2 8 true true, .raise]

theorem closure_and_error_once :
    ∃ final, run Service.step (Service.start 0) answerThenError = some final ∧
      final.replies = [⟨some 0, some 7, some 1, .response⟩, ⟨some 1, some 8, some 2, .error⟩] ∧
      (∀ (r : Nat) (request : Request), final.requests[r]? = some request → request.session ≠ 0 →
        (final.replies.countP fun reply => reply.request = some r) ≤ 1) := by
  refine ⟨_, rfl, by decide, (@answered_once 0 _ ?_).1⟩
  refine Path.of_run answerThenError (.refl _) ?_ rfl
  refine ⟨trivial, trivial, ?_, trivial, trivial, trivial, trivial, trivial, ?_, trivial⟩
  · intro closure found _ _ r is
    rfl
  · intro co running _
    have first : co = 1 := by
      change Mode.running 1 = Mode.running co at running
      exact (Mode.running.inj running).symm
    subst first
    exact ⟨fun r _ => rfl, trivial⟩

theorem error_after_answer :
    ∃ final, run Service.step (Service.start 0) [.request 1 7 true true, .ret, .raise] = some final ∧
      final.requests[0]? = some ⟨1, 7⟩ ∧
      final.replies = [⟨some 0, some 7, some 1, .response⟩, ⟨some 0, some 7, some 1, .error⟩] ∧
      (final.replies.countP fun reply => reply.request = some 0) = 2 :=
  ⟨_, rfl, rfl, by decide, by decide⟩

end Pskynet.Skynet
