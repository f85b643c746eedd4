import Mathlib.Tactic
import Pskynet.ServiceMgr.Waitfor

set_option autoImplicit false

namespace Pskynet.ServiceMgr

-- What a local manager calls at `SERVICE` for a global name.
inductive Forward where
  | launch
  | query
  deriving DecidableEq

inductive Arrival where
  | glaunch
  | gquery
  | finish (r : Nat) (result : Result)
  | resume (r : Nat)
  deriving DecidableEq

-- `register_local`: both give `waitfor` a function, so both may become the launch of the name.
def Arrival.action : Arrival → Action Forward
  | .glaunch => .request (some .launch)
  | .gquery => .request (some .query)
  | .finish r result => .finish r result
  | .resume r => .resume r

def localStep (s : Manager Forward) (arrival : Arrival) : Option (Manager Forward) :=
  step s arrival.action

def Manager.pending {F : Type} (s : Manager F) : List (Option F) :=
  s.waiting.map Prod.snd ++ s.launching.map fun call => some call.2

def Forwarded (s : Manager Forward) : Prop :=
  some .launch ∈ s.pending → .launch ∈ s.calls ∧ .launch ∈ s.launching.map Prod.snd

def Clear (s : Manager Forward) (arrival : Arrival) : Prop :=
  arrival = .glaunch → .query ∉ s.launching.map Prod.snd

instance (s : Manager Forward) (arrival : Arrival) : Decidable (Clear s arrival) :=
  inferInstanceAs (Decidable (_ → _))

inductive Progress (s : Manager Forward) : Prop where
  | free (entry : ∀ waiters launch, s.entry ≠ some (.queue waiters launch))
      (launching : s.launching = []) (waiting : s.waiting = [])
  | busy (call : Nat × Forward) (entry : s.entry = some (.queue (s.waiting.map Prod.fst) true))
      (launching : s.launching = [call]) (sent : call.2 ∈ s.calls)
      (forwarded : some .launch ∈ s.waiting.map Prod.snd → call.2 = .launch)

variable {s t : Manager Forward}

theorem Progress.forwarded (progress : Progress s) : Forwarded s := by
  intro pending
  cases progress with
  | free _ launching waiting =>
    simp only [Manager.pending, launching, waiting, List.map_nil, List.append_nil] at pending
    cases pending
  | busy call _ launching sent forwarded =>
    have is : call.2 = .launch := by
      rcases List.mem_append.mp pending with sleeps | calls
      · exact forwarded sleeps
      · rw [launching, List.map_singleton, List.mem_singleton, Option.some.injEq] at calls
        exact calls.symm
    rw [launching, List.map_singleton, List.mem_singleton]
    exact ⟨is ▸ sent, is.symm⟩

theorem request_free (entry : ∀ waiters launch, s.entry ≠ some (.queue waiters launch))
    (launching : s.launching = []) (waiting : s.waiting = []) (forward : Forward) :
    Progress (s.waitfor (some forward)) := by
  cases is : s.entry with
  | none =>
    simp only [Manager.waitfor, is, Manager.enqueue, Bool.false_eq_true, if_false]
    refine .busy (s.arrived, forward) ?_ ?_ ?_ ?_
    · simp only [waiting, List.map_nil]
    · simp only [launching, List.nil_append]
    · exact List.mem_append_right _ (List.mem_singleton_self _)
    · intro sleeps
      simp only [waiting, List.map_nil] at sleeps
      cases sleeps
  | some known =>
    cases known with
    | queue waiters launch => exact absurd is (entry waiters launch)
    | handle address =>
      simp only [Manager.waitfor, is, Manager.reply]
      exact .free (fun waiters launch same => by cases same) launching waiting
    | failed message =>
      simp only [Manager.waitfor, is, Manager.reply]
      exact .free (fun waiters launch same => by cases same) launching waiting

theorem waitfor_busy (entry : s.entry = some (.queue (s.waiting.map Prod.fst) true))
    (forward : Forward) :
    s.waitfor (some forward) = { s with
      arrived := s.arrived + 1
      entry := some (.queue (s.waiting.map Prod.fst ++ [s.arrived]) true)
      waiting := s.waiting ++ [(s.arrived, some forward)] } := by
  simp only [Manager.waitfor, entry, Manager.enqueue, if_true]

theorem request_busy {call : Nat × Forward}
    (entry : s.entry = some (.queue (s.waiting.map Prod.fst) true))
    (launching : s.launching = [call]) (sent : call.2 ∈ s.calls)
    (forwarded : some .launch ∈ s.waiting.map Prod.snd → call.2 = .launch)
    (forward : Forward) (clear : forward = .launch → call.2 = .launch) :
    Progress (s.waitfor (some forward)) := by
  rw [waitfor_busy entry]
  refine .busy call ?_ launching sent ?_
  · simp only [List.map_append, List.map_singleton]
  · intro sleeps
    simp only [List.map_append, List.map_singleton] at sleeps
    rcases List.mem_append.mp sleeps with old | new_
    · exact forwarded old
    · exact clear (Option.some.inj (List.mem_singleton.mp new_)).symm

theorem finish_progress {r : Nat} {result : Result} (progress : Progress s)
    (taken : step s (.finish r result) = some t) : Progress t := by
  simp only [step] at taken
  split_ifs at taken with inside
  cases progress with
  | free _ launching _ =>
    rw [launching] at inside
    cases inside
  | busy call entry launching sent forwarded =>
    rw [launching, List.map_singleton, List.mem_singleton] at inside
    subst inside
    obtain ⟨after, reply, ended, made⟩ : ∃ after reply,
        (∀ waiters launch, after ≠ some (.queue waiters launch)) ∧ t = { s with
          entry := after
          launching := []
          waiting := []
          woken := s.woken ++ s.waiting.map Prod.fst
          replies := s.replies ++ [(call.1, reply)] } := by
      rw [Option.some.injEq] at taken
      cases result with
      | handle address =>
        refine ⟨some (.handle address), .handle address, by simp, ?_⟩
        rw [← taken]
        simp only [Manager.request, entry]
        rw [wakeup_all]
        simp [Manager.reply, launching]
      | nothing =>
        refine ⟨none, .nothing, by simp, ?_⟩
        rw [← taken]
        simp only [Manager.request, entry]
        rw [wakeup_all]
        simp [Manager.reply, launching]
      | raised message =>
        refine ⟨some (.failed message), .error (some 24) message, by simp, ?_⟩
        rw [← taken]
        simp only [Manager.request, entry]
        rw [wakeup_all]
        simp [Manager.reply, launching]
    rw [made]
    exact .free ended rfl rfl

theorem resume_progress {r : Nat} (progress : Progress s)
    (taken : step s (.resume r) = some t) : Progress t := by
  simp only [step] at taken
  split_ifs at taken with inside
  rw [Option.some.injEq] at taken
  obtain ⟨reply, made⟩ : ∃ reply, t =
      ({ s with woken := s.woken.erase r } : Manager Forward).reply r reply := by
    rw [← taken]
    simp only [Manager.resume]
    split
    · exact ⟨_, rfl⟩
    · exact ⟨_, rfl⟩
    · exact ⟨_, rfl⟩
  rw [made]
  cases progress with
  | free entry launching waiting => exact .free entry launching waiting
  | busy call entry launching sent forwarded => exact .busy call entry launching sent forwarded

theorem step_progress {arrival : Arrival} (progress : Progress s) (clear : Clear s arrival)
    (taken : localStep s arrival = some t) : Progress t := by
  cases arrival with
  | finish r result => exact finish_progress progress taken
  | resume r => exact resume_progress progress taken
  | glaunch =>
    rw [← Option.some.inj taken]
    cases progress with
    | free entry launching waiting => exact request_free entry launching waiting .launch
    | busy call entry launching sent forwarded =>
      refine request_busy entry launching sent forwarded .launch ?_
      intro _
      have other := clear rfl
      rw [launching, List.map_singleton, List.mem_singleton] at other
      cases is : call.2 with
      | launch => rfl
      | query => exact absurd is.symm other
  | gquery =>
    rw [← Option.some.inj taken]
    cases progress with
    | free entry launching waiting => exact request_free entry launching waiting .query
    | busy call entry launching sent forwarded =>
      exact request_busy entry launching sent forwarded .query Forward.noConfusion

theorem forwarded_clear {arrival : Arrival} (progress : Progress s)
    (taken : localStep s arrival = some t) (forwarded : Forwarded t) : Clear s arrival := by
  intro is query
  subst is
  rw [← Option.some.inj taken] at forwarded
  cases progress with
  | free _ launching _ =>
    rw [launching] at query
    cases query
  | busy call entry launching sent _ =>
    rw [launching, List.map_singleton, List.mem_singleton] at query
    have after : s.waitfor (some .launch) = _ := waitfor_busy entry .launch
    have pending : some .launch ∈ (s.waitfor (some .launch)).pending := by
      rw [after]
      simp [Manager.pending]
    have launch := (forwarded pending).2
    rw [after] at launch
    simp only [launching, List.map_singleton, List.mem_singleton] at launch
    cases launch.trans query.symm

theorem launch_forwarded (arrivals : List Arrival) (s : Manager Forward)
    (reached : Transition.run localStep Manager.start arrivals = some s) :
    Transition.Along localStep Clear Manager.start arrivals ↔
      Transition.Along localStep (fun s arrival => ∀ t, localStep s arrival = some t → Forwarded t)
        Manager.start arrivals := by
  refine Transition.Along.iff Progress ?_ ?_ arrivals _ s ?_ reached
  · exact fun s arrival t progress clear taken => step_progress progress clear taken
  · intro s arrival t progress taken
    constructor
    · intro clear u same
      have is : t = u := Option.some.inj (taken.symm.trans same)
      exact is ▸ (step_progress progress clear taken).forwarded
    · intro forwarded
      exact forwarded_clear progress taken (forwarded t taken)
  · refine .free ?_ rfl rfl
    intro waiters launch same
    cases same

def launchThenQuery : List Arrival :=
  [.glaunch, .gquery, .glaunch, .finish 0 (.handle 16777220), .resume 1, .gquery]

theorem launch_then_query_forwarded :
    Transition.Along localStep (fun s arrival => ∀ t, localStep s arrival = some t → Forwarded t)
      Manager.start launchThenQuery := by
  exact (launch_forwarded launchThenQuery _ rfl).mp (by decide)

theorem query_then_launch :
    ¬∀ (arrivals : List Arrival) (s : Manager Forward),
      Transition.run localStep Manager.start arrivals = some s →
      some .launch ∈ s.pending → .launch ∈ s.calls := by
  intro always
  have sent := always [.gquery, .glaunch] _ rfl (by decide)
  revert sent
  decide

end Pskynet.ServiceMgr
