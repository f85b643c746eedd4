import Mathlib.Data.List.Perm.Basic
import Mathlib.Tactic
import Pskynet.Shared.Transition

set_option autoImplicit false

namespace Pskynet.ServiceMgr

-- The entry of a name in `service`. The queue holds the coroutines in `skynet.wait`.
inductive Entry where
  | queue (waiters : List Nat) (launch : Bool)
  | handle (handle : Int)
  | failed (message : String)
  deriving DecidableEq

inductive Result where
  | handle (handle : Int)
  | nothing
  | raised (message : String)
  deriving DecidableEq

-- The reply to a request. The error text of `error` starts with the line that raised it; that of
-- `assert` has no line.
inductive Reply where
  | handle (handle : Int)
  | nothing
  | error (line : Option Nat) (message : String)
  deriving DecidableEq

variable {F : Type}

-- What a service manager knows of one name, for launch functions in `F`. `calls` are all calls
-- of a launch function so far, `launching` the requests that wait for theirs.
structure Manager (F : Type) where
  entry : Option Entry
  arrived : Nat
  launching : List (Nat × F)
  waiting : List (Nat × Option F)
  woken : List Nat
  calls : List F
  replies : List (Nat × Reply)

namespace Manager

def start : Manager F where
  entry := none
  arrived := 0
  launching := []
  waiting := []
  woken := []
  calls := []
  replies := []

def reply (s : Manager F) (r : Nat) (reply : Reply) : Manager F :=
  { s with replies := s.replies ++ [(r, reply)] }

-- `waitfor` with a table in the entry.
def enqueue (s : Manager F) (waiters : List Nat) (launch : Bool) (r : Nat) (func : Option F) :
    Manager F :=
  let sleeps := { s with
    entry := some (.queue (waiters ++ [r]) launch)
    waiting := s.waiting ++ [(r, func)] }
  match func with
  | none => sleeps
  | some f =>
      if launch then sleeps
      else { s with
        entry := some (.queue waiters true)
        launching := s.launching ++ [(r, f)]
        calls := s.calls ++ [f] }

def waitfor (s : Manager F) (func : Option F) : Manager F :=
  let r := s.arrived
  let t := { s with arrived := s.arrived + 1 }
  match s.entry with
  | some (.handle handle) => t.reply r (.handle handle)
  | some (.failed message) => t.reply r (.error (some 39) message)
  | some (.queue waiters launch) => t.enqueue waiters launch r func
  | none => t.enqueue [] false r func

-- `skynet.wakeup` of the coroutines in the queue that sleep.
def wakeup (s : Manager F) (waiters : List Nat) : Manager F :=
  { s with
    waiting := s.waiting.filter fun request => !waiters.contains request.1
    woken := s.woken ++ (s.waiting.filter fun request => waiters.contains request.1).map Prod.fst }

def request (s : Manager F) (r : Nat) (result : Result) : Manager F :=
  match s.entry with
  | some (.queue waiters _) =>
      match result with
      | .handle handle =>
          (({ s with entry := some (.handle handle) } : Manager F).wakeup waiters).reply r
            (.handle handle)
      | .nothing =>
          (({ s with entry := none } : Manager F).wakeup waiters).reply r .nothing
      | .raised message =>
          (({ s with entry := some (.failed message) } : Manager F).wakeup waiters).reply r
            (.error (some 24) message)
  | _ => s.reply r (.error none "assertion failed!")

def resume (s : Manager F) (r : Nat) : Manager F :=
  match s.entry with
  | some (.failed message) => s.reply r (.error (some 53) message)
  | some (.handle handle) => s.reply r (.handle handle)
  | _ => s.reply r (.error none "assertion failed!")

end Manager

inductive Action (F : Type) where
  | request (func : Option F)
  | finish (r : Nat) (result : Result)
  | resume (r : Nat)

def step (s : Manager F) : Action F → Option (Manager F)
  | .request func => some (s.waitfor func)
  | .finish r result =>
      if r ∈ s.launching.map Prod.fst then
        some (({ s with launching := s.launching.filter fun call => call.1 ≠ r } :
          Manager F).request r result)
      else none
  | .resume r =>
      if r ∈ s.woken then
        some (({ s with woken := s.woken.erase r } : Manager F).resume r)
      else none

def Reply.result : Reply → Result
  | .handle address => .handle address
  | .nothing => .nothing
  | .error _ message => .raised message

def Entry.result : Entry → Result
  | .queue _ _ => .nothing
  | .handle address => .handle address
  | .failed message => .raised message

def Result.entry : Result → Option Entry
  | .handle address => some (.handle address)
  | .nothing => none
  | .raised message => some (.failed message)

def Result.reply (result : Result) (line : Nat) : Reply :=
  match result with
  | .handle address => .handle address
  | .nothing => .nothing
  | .raised message => .error (some line) message

theorem Result.entry_eq (result : Result) (ended : result ≠ .nothing) :
    ∃ entry : Entry, result.entry = some entry ∧ entry.result = result := by
  cases result with
  | handle address => exact ⟨.handle address, rfl, rfl⟩
  | nothing => exact absurd rfl ended
  | raised message => exact ⟨.failed message, rfl, rfl⟩

theorem Result.reply_result (result : Result) (line : Nat) : (result.reply line).result = result := by
  cases result <;> rfl

def Accounted (s : Manager F) : Prop :=
  (s.replies.map Prod.fst ++ s.waiting.map Prod.fst ++ s.woken ++ s.launching.map Prod.fst).Perm
    (List.range s.arrived)

structure Once (s : Manager F) : Prop where
  calls : s.calls.length ≤ 1
  same : ∀ reply ∈ s.replies, ∀ other ∈ s.replies, reply.2.result = other.2.result
  released : s.calls ≠ [] → s.launching = [] → s.waiting = []
  accounted : Accounted s

inductive Stage (s : Manager F) : Prop where
  | queued (waiters : List Nat) (entry : s.entry = some (.queue waiters false) ∨ s.entry = none)
      (same : waiters = s.waiting.map Prod.fst) (vacant : s.entry = none → waiters = [])
      (launching : s.launching = []) (calls : s.calls = []) (woken : s.woken = [])
      (replies : s.replies = [])
  | launching (waiters : List Nat) (call : Nat × F) (entry : s.entry = some (.queue waiters true))
      (same : waiters = s.waiting.map Prod.fst) (launching : s.launching = [call])
      (calls : s.calls = [call.2]) (woken : s.woken = []) (replies : s.replies = [])
  | done (entry : Entry) (is : s.entry = some entry) (ended : entry.result ≠ .nothing)
      (launching : s.launching = []) (waiting : s.waiting = []) (calls : s.calls.length = 1)
      (replies : ∀ reply ∈ s.replies, reply.2.result = entry.result)

theorem Stage.once {s : Manager F} (stage : Stage s) (accounted : Accounted s) : Once s := by
  cases stage with
  | queued waiters _ _ _ _ calls _ replies =>
    refine ⟨by simp [calls], by simp [replies], fun some_ => absurd calls some_, accounted⟩
  | launching waiters call _ _ launching calls _ replies =>
    refine ⟨by simp [calls], by simp [replies], fun _ none_ => ?_, accounted⟩
    rw [launching] at none_
    cases none_
  | done entry _ _ _ waiting calls replies =>
    refine ⟨calls.le, ?_, fun _ _ => waiting, accounted⟩
    intro reply one other two
    rw [replies reply one, replies other two]

variable {s t : Manager F}

theorem start_stage : Stage (Manager.start : Manager F) :=
  .queued [] (.inr rfl) rfl (fun _ => rfl) rfl rfl rfl rfl

theorem accounted_reply (accounted : Accounted s) (reply : Reply) :
    Accounted (({ s with arrived := s.arrived + 1 } : Manager F).reply s.arrived reply) := by
  unfold Accounted at accounted ⊢
  simp only [Manager.reply, List.map_append, List.map_singleton, List.range_succ, List.append_assoc]
  refine .trans (List.Perm.append_left _ List.perm_append_comm) ?_
  simp only [← List.append_assoc]
  exact accounted.append_right _

theorem accounted_waiting (accounted : Accounted s) (entry : Option Entry) (func : Option F) :
    Accounted { s with
      arrived := s.arrived + 1
      entry := entry
      waiting := s.waiting ++ [(s.arrived, func)] } := by
  unfold Accounted at accounted ⊢
  simp only [List.map_append, List.map_singleton, List.range_succ, List.append_assoc] at accounted ⊢
  refine .trans ?_ (accounted.append_right _)
  simp only [List.append_assoc]
  refine List.Perm.append_left _ (List.Perm.append_left _ ?_)
  exact List.perm_append_comm.trans (by rw [List.append_assoc])

theorem waitfor_stage (stage : Stage s) (accounted : Accounted s) (func : Option F) :
    Stage (s.waitfor func) ∧ Accounted (s.waitfor func) := by
  cases stage with
  | queued waiters entry same vacant launching calls woken replies =>
    have is : s.waitfor func =
        Manager.enqueue { s with arrived := s.arrived + 1 } waiters false s.arrived func := by
      rcases entry with entry | entry
      · simp only [Manager.waitfor, entry]
      · simp only [Manager.waitfor, entry, vacant entry]
    rw [is]
    cases func with
    | none =>
      refine ⟨.queued (waiters ++ [s.arrived]) (.inl rfl) ?_ (fun none_ => by cases none_) launching
        calls woken replies, accounted_waiting accounted _ none⟩
      simp [Manager.enqueue, same]
    | some f =>
      refine ⟨.launching waiters (s.arrived, f) rfl same ?_ ?_ woken replies, ?_⟩
      · simp [Manager.enqueue, launching]
      · simp [Manager.enqueue, calls]
      · unfold Accounted at accounted ⊢
        simp only [Manager.enqueue, Bool.false_eq_true, if_false, List.map_append,
          List.map_singleton, List.range_succ]
        rw [← List.append_assoc]
        exact accounted.append_right _
  | launching waiters call entry same launching calls woken replies =>
    have is : s.waitfor func = { s with
        arrived := s.arrived + 1
        entry := some (.queue (waiters ++ [s.arrived]) true)
        waiting := s.waiting ++ [(s.arrived, func)] } := by
      cases func <;> simp [Manager.waitfor, entry, Manager.enqueue]
    rw [is]
    refine ⟨.launching (waiters ++ [s.arrived]) call rfl ?_ launching calls woken replies,
      accounted_waiting accounted _ func⟩
    simp [same]
  | done entry is ended launching waiting calls replies =>
    obtain ⟨reply, made, result⟩ : ∃ reply, s.waitfor func =
        ({ s with arrived := s.arrived + 1 } : Manager F).reply s.arrived reply ∧
          reply.result = entry.result := by
      cases entry with
      | queue waiters launch => exact absurd rfl ended
      | handle address => exact ⟨.handle address, by simp only [Manager.waitfor, is], rfl⟩
      | failed message => exact ⟨.error (some 39) message, by simp only [Manager.waitfor, is], rfl⟩
    rw [made]
    refine ⟨.done entry is ended launching waiting calls ?_, accounted_reply accounted reply⟩
    intro other inside
    rcases List.mem_append.mp inside with old | new_
    · exact replies other old
    · rw [List.mem_singleton.mp new_]
      exact result

theorem wakeup_all (s : Manager F) :
    s.wakeup (s.waiting.map Prod.fst) =
      { s with waiting := [], woken := s.woken ++ s.waiting.map Prod.fst } := by
  have there : ∀ request ∈ s.waiting, (s.waiting.map Prod.fst).contains request.1 = true := by
    intro request member
    exact List.contains_iff_mem.mpr (List.mem_map_of_mem member)
  have kept : (s.waiting.filter fun request => !(s.waiting.map Prod.fst).contains request.1) = [] := by
    rw [List.filter_eq_nil_iff]
    intro request member
    rw [there request member]
    exact Bool.false_ne_true
  have all : (s.waiting.filter fun request => (s.waiting.map Prod.fst).contains request.1) =
      s.waiting :=
    List.filter_eq_self.mpr there
  rw [Manager.wakeup, kept, all]

theorem finish_launching {r : Nat} {result : Result} {waiters : List Nat} {call : Nat × F}
    (entry : s.entry = some (.queue waiters true)) (same : waiters = s.waiting.map Prod.fst)
    (launching : s.launching = [call]) (woken : s.woken = []) (replies : s.replies = [])
    (taken : step s (.finish r result) = some t) :
    r = call.1 ∧ t = { s with
      entry := result.entry
      launching := []
      waiting := []
      woken := s.waiting.map Prod.fst
      replies := [(call.1, result.reply 24)] } := by
  simp only [step] at taken
  split_ifs at taken with inside
  rw [launching, List.map_singleton, List.mem_singleton] at inside
  subst inside same
  rw [Option.some.injEq] at taken
  refine ⟨rfl, ?_⟩
  rw [← taken]
  cases result <;> simp only [Manager.request, entry] <;> rw [wakeup_all] <;>
    simp [Manager.reply, Result.entry, Result.reply, launching, woken, replies]

theorem finish_stage {r : Nat} {result : Result} (stage : Stage s) (accounted : Accounted s)
    (ended : result ≠ .nothing) (taken : step s (.finish r result) = some t) :
    Stage t ∧ Accounted t := by
  cases stage with
  | queued waiters entry same vacant launching calls woken replies =>
    simp [step, launching] at taken
  | done entry is _ launching waiting calls replies =>
    simp [step, launching] at taken
  | launching waiters call entry same launching calls woken replies =>
    obtain ⟨-, is⟩ := finish_launching entry same launching woken replies taken
    obtain ⟨after, made, told⟩ := result.entry_eq ended
    rw [is, made]
    refine ⟨.done after rfl ?_ rfl rfl ?_ ?_, ?_⟩
    · rw [told]
      exact ended
    · exact congrArg List.length calls
    · intro other inside
      rw [List.mem_singleton.mp inside, told]
      exact result.reply_result 24
    · unfold Accounted at accounted ⊢
      simp only [replies, woken, launching, List.map_nil, List.nil_append, List.append_nil,
        List.map_singleton] at accounted ⊢
      exact List.perm_append_comm.trans accounted

theorem resume_stage {r : Nat} (stage : Stage s) (accounted : Accounted s)
    (taken : step s (.resume r) = some t) : Stage t ∧ Accounted t := by
  simp only [step] at taken
  split_ifs at taken with inside
  rw [Option.some.injEq] at taken
  cases stage with
  | queued waiters entry same vacant launching calls woken replies =>
    rw [woken] at inside
    cases inside
  | launching waiters call entry same launching calls woken replies =>
    rw [woken] at inside
    cases inside
  | done entry is ended launching waiting calls replies =>
    obtain ⟨reply, made, result⟩ : ∃ reply, t =
        ({ s with woken := s.woken.erase r } : Manager F).reply r reply ∧
          reply.result = entry.result := by
      cases entry with
      | queue waiters launch => exact absurd rfl ended
      | handle address =>
        exact ⟨.handle address, by rw [← taken]; simp only [Manager.resume, is], rfl⟩
      | failed message =>
        exact ⟨.error (some 53) message, by rw [← taken]; simp only [Manager.resume, is], rfl⟩
    rw [made]
    refine ⟨.done entry is ended launching waiting calls ?_, ?_⟩
    · intro other member
      rcases List.mem_append.mp member with old | new_
      · exact replies other old
      · rw [List.mem_singleton.mp new_]
        exact result
    · unfold Accounted at accounted ⊢
      simp only [Manager.reply, waiting, launching, List.map_nil, List.append_nil, List.map_append,
        List.map_singleton, List.append_assoc] at accounted ⊢
      refine .trans (List.Perm.append_left _ ?_) accounted
      exact (List.perm_cons_erase inside).symm

-- The first `.finish`: the request that launched, what came of it, and how many requests had
-- arrived.
def launchEnd : Nat → List (Action F) → Option (Nat × Result × Nat)
  | _, [] => none
  | arrived, .request _ :: rest => launchEnd (arrived + 1) rest
  | arrived, .finish r result :: _ => some (r, result, arrived)
  | arrived, .resume _ :: rest => launchEnd arrived rest

-- `request` raises at line 24; `waitfor` at 53 when it has slept and at 39 when it comes later.
def errorLine (launcher arrived r : Nat) : Nat :=
  if r = launcher then 24 else if r < arrived then 53 else 39

structure Told (actions : List (Action F)) (s : Manager F) : Prop where
  early : launchEnd 0 actions = none → s.replies = []
  answered : ∀ launcher result arrived, launchEnd 0 actions = some (launcher, result, arrived) →
    ∀ reply ∈ s.replies, reply.2 = result.reply (errorLine launcher arrived reply.1)

structure Ended (launcher : Nat) (result : Result) (arrived : Nat) (s : Manager F) : Prop where
  entry : s.entry = result.entry
  launching : s.launching = []
  ended : result ≠ .nothing
  known : launcher < arrived
  before : arrived ≤ s.arrived
  woken : ∀ r ∈ s.woken, r ≠ launcher ∧ r < arrived
  told : ∀ reply ∈ s.replies, reply.2 = result.reply (errorLine launcher arrived reply.1)

theorem Ended.reply {launcher arrived r : Nat} {result : Result} (after : Ended launcher result arrived s)
    {reply : Reply} (right : reply = result.reply (errorLine launcher arrived r)) :
    Ended launcher result arrived (s.reply r reply) := by
  refine { after with told := ?_ }
  intro other inside
  rcases List.mem_append.mp inside with old | new_
  · exact after.told other old
  · rw [List.mem_singleton.mp new_]
    exact right

theorem Ended.step {launcher arrived : Nat} {result : Result} (after : Ended launcher result arrived s)
    (action : Action F) (taken : step s action = some t) : Ended launcher result arrived t := by
  have here := after.entry
  cases action with
  | request func =>
    have later : Ended launcher result arrived { s with arrived := s.arrived + 1 } :=
      { after with before := Nat.le_succ_of_le after.before }
    have line : errorLine launcher arrived s.arrived = 39 := by
      have := after.known
      have := after.before
      rw [errorLine, if_neg (by omega), if_neg (by omega)]
    have is : s.waitfor func =
        ({ s with arrived := s.arrived + 1 } : Manager F).reply s.arrived (result.reply 39) := by
      cases result with
      | handle address => simp only [Manager.waitfor, here, Result.entry, Result.reply]
      | nothing => exact absurd rfl after.ended
      | raised message => simp only [Manager.waitfor, here, Result.entry, Result.reply]
    obtain rfl := Option.some.inj taken
    rw [is]
    exact later.reply (by rw [line])
  | finish r other => simp [ServiceMgr.step, after.launching] at taken
  | resume r =>
    simp only [ServiceMgr.step] at taken
    split_ifs at taken with inside
    obtain rfl := Option.some.inj taken
    have left : Ended launcher result arrived { s with woken := s.woken.erase r } :=
      { after with woken := fun k there => after.woken k (List.mem_of_mem_erase there) }
    have line : errorLine launcher arrived r = 53 := by
      obtain ⟨other, early⟩ := after.woken r inside
      rw [errorLine, if_neg other, if_pos early]
    have is : ({ s with woken := s.woken.erase r } : Manager F).resume r =
        ({ s with woken := s.woken.erase r } : Manager F).reply r (result.reply 53) := by
      cases result with
      | handle address => simp only [Manager.resume, here, Result.entry, Result.reply]
      | nothing => exact absurd rfl after.ended
      | raised message => simp only [Manager.resume, here, Result.entry, Result.reply]
    rw [is]
    exact left.reply (by rw [line])

theorem finish_ended {r : Nat} {result : Result} (stage : Stage s) (accounted : Accounted s)
    (ended : result ≠ .nothing) (taken : step s (.finish r result) = some t) :
    Ended r result s.arrived t := by
  cases stage with
  | queued waiters entry same vacant launching calls woken replies =>
    simp [step, launching] at taken
  | done entry is _ launching waiting calls replies =>
    simp [step, launching] at taken
  | launching waiters call entry same launching calls woken replies =>
    obtain ⟨rfl, is⟩ := finish_launching entry same launching woken replies taken
    unfold Accounted at accounted
    simp only [replies, woken, launching, List.map_nil, List.nil_append, List.append_nil,
      List.map_singleton] at accounted
    have distinct := accounted.nodup_iff.mpr List.nodup_range
    rw [is]
    refine ⟨rfl, rfl, ended, ?_, le_refl _, ?_, ?_⟩
    · exact List.mem_range.mp (accounted.mem_iff.mp (by simp))
    · intro k inside
      refine ⟨?_, List.mem_range.mp (accounted.mem_iff.mp (List.mem_append_left _ inside))⟩
      rintro rfl
      exact List.disjoint_of_nodup_append distinct inside (List.mem_singleton_self _)
    · intro reply inside
      rw [List.mem_singleton.mp inside]
      simp [errorLine]

structure Open (s : Manager F) : Prop where
  entry : ∀ entry, s.entry = some entry → entry.result = .nothing
  woken : s.woken = []
  replies : s.replies = []

theorem Open.waitfor (before : Open s) (func : Option F) :
    Open (s.waitfor func) ∧ (s.waitfor func).arrived = s.arrived + 1 := by
  have queues (waiters : List Nat) (launch : Bool) :
      Open (Manager.enqueue { s with arrived := s.arrived + 1 } waiters launch s.arrived func) ∧
        (Manager.enqueue { s with arrived := s.arrived + 1 } waiters launch s.arrived func).arrived =
          s.arrived + 1 := by
    cases func with
    | none => exact ⟨⟨fun _ is => Option.some.inj is ▸ rfl, before.woken, before.replies⟩, rfl⟩
    | some f =>
      cases launch <;>
        exact ⟨⟨fun _ is => Option.some.inj is ▸ rfl, before.woken, before.replies⟩, rfl⟩
  unfold Manager.waitfor
  cases here : s.entry with
  | none => exact queues [] false
  | some entry =>
    cases entry with
    | queue waiters launch => exact queues waiters launch
    | handle address => cases before.entry _ here
    | failed message => cases before.entry _ here

theorem Ended.run {launcher arrived : Nat} {result : Result} (after : Ended launcher result arrived s)
    (actions : List (Action F)) (ran : Transition.run ServiceMgr.step s actions = some t) :
    Ended launcher result arrived t :=
  Transition.run_invariant ServiceMgr.step (Ended launcher result arrived)
    (fun _ action _ held taken => held.step action taken) actions s t after ran

theorem run_stage (actions : List (Action F)) (stage : Stage s) (accounted : Accounted s)
    (ends : ∀ r, Action.finish r .nothing ∉ actions)
    (ran : Transition.run step s actions = some t) : Stage t ∧ Accounted t := by
  induction actions generalizing s with
  | nil =>
    obtain rfl := Option.some.inj ran
    exact ⟨stage, accounted⟩
  | cons action rest ih =>
    have later : ∀ r, Action.finish r .nothing ∉ rest := fun r there =>
      ends r (List.mem_cons_of_mem _ there)
    simp only [Transition.run] at ran
    split at ran
    · rename_i next taken
      have kept : Stage next ∧ Accounted next := by
        cases action with
        | request func =>
          exact Option.some.inj taken ▸ waitfor_stage stage accounted func
        | finish r result =>
          refine finish_stage stage accounted ?_ taken
          rintro rfl
          exact ends r (List.mem_cons_self ..)
        | resume r => exact resume_stage stage accounted taken
      exact ih kept.1 kept.2 later ran
    · contradiction

theorem Open.run (actions : List (Action F)) (before : Open s) (stage : Stage s)
    (accounted : Accounted s) (ends : ∀ r, Action.finish r .nothing ∉ actions)
    (ran : Transition.run step s actions = some t) :
    (launchEnd s.arrived actions = none → t.replies = []) ∧
      ∀ launcher result arrived, launchEnd s.arrived actions = some (launcher, result, arrived) →
        Ended launcher result arrived t := by
  induction actions generalizing s with
  | nil =>
    obtain rfl := Option.some.inj ran
    exact ⟨fun _ => before.replies, by simp [launchEnd]⟩
  | cons action rest ih =>
    have later : ∀ r, Action.finish r .nothing ∉ rest := fun r there =>
      ends r (List.mem_cons_of_mem _ there)
    cases action with
    | request func =>
      obtain ⟨open_, arrived⟩ := before.waitfor func
      obtain ⟨stage, accounted⟩ := waitfor_stage stage accounted func
      have goes := ih open_ stage accounted later ran
      rwa [arrived] at goes
    | finish r result =>
      have ended : result ≠ .nothing := by
        rintro rfl
        exact ends r (List.mem_cons_self ..)
      simp only [Transition.run] at ran
      split at ran
      · rename_i next taken
        have after := (finish_ended stage accounted ended taken).run rest ran
        refine ⟨by simp [launchEnd], ?_⟩
        intro launcher other arrived is
        obtain ⟨rfl, rfl, rfl⟩ : r = launcher ∧ result = other ∧ s.arrived = arrived := by
          simpa [launchEnd] using is
        exact after
      · contradiction
    | resume r => simp [Transition.run, step, before.woken] at ran

theorem launched_once (actions : List (Action F)) (s : Manager F)
    (ran : Transition.run step Manager.start actions = some s)
    (ends : ∀ r, Action.finish r .nothing ∉ actions) : Once s ∧ Told actions s := by
  have opened : Open (Manager.start : Manager F) := ⟨by simp [Manager.start], rfl, rfl⟩
  obtain ⟨early, after⟩ := opened.run actions start_stage (.refl _) ends ran
  refine ⟨?_, early, fun launcher result arrived is => (after launcher result arrived is).told⟩
  obtain ⟨stage, accounted⟩ := run_stage actions start_stage (.refl _) ends ran
  exact stage.once accounted

def failedLaunch : List (Action Unit) :=
  [.request (some ()), .request none, .finish 0 (.raised "no such file"), .resume 1, .request none]

theorem failed_launch_once :
    ∃ s, Transition.run step (Manager.start : Manager Unit) failedLaunch = some s ∧
      s.replies = [(0, .error (some 24) "no such file"), (1, .error (some 53) "no such file"),
        (2, .error (some 39) "no such file")] ∧
      Once s ∧ Told failedLaunch s := by
  refine ⟨_, rfl, rfl, launched_once failedLaunch _ rfl ?_⟩
  intro r there
  simp [failedLaunch] at there

theorem error_lines_differ :
    ¬∀ (actions : List (Action Unit)) (s : Manager Unit),
      Transition.run step Manager.start actions = some s →
      ∀ reply ∈ s.replies, ∀ other ∈ s.replies, reply.2 = other.2 := by
  intro always
  have same := always failedLaunch _ rfl (0, .error (some 24) "no such file") (by decide)
    (1, .error (some 53) "no such file") (by decide)
  cases same

end Pskynet.ServiceMgr
