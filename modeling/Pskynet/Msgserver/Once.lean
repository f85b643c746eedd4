import Pskynet.Msgserver.Requests

set_option autoImplicit false

namespace Pskynet.Msgserver

namespace Server

def overtaken (s : Server) (session : Session) (request : Nat) : Bool :=
  (s.latest session).any fun last => decide (request < last)

def current (s : Server) (session : Session) (request : Nat) : Bool :=
  (s.response session).any fun i =>
    s.entries[i]?.any fun p => p.request == request && p.version == some s.version

end Server

def Timely (s : Server) : Action → Prop
  | .message fd =>
      fd ∈ s.opened →
        ((Mailbox.take fd s.requests).all fun ((session, request), _) =>
          !s.overtaken session request && !s.current session request) = true
  | _ => True

instance (s : Server) : (action : Action) → Decidable (Timely s action)
  | .message _ => inferInstanceAs (Decidable (_ → _ = true))
  | .connect _ _ | .disconnect _ | .ask _ _ | .resend _ _ | .finish _ _ _ | .receive _ =>
      .isTrue trivial

def Answered (expired : Nat) (s : Server) (fd : Nat) : Prop :=
  ∀ session request rest p text t, fd ∈ s.opened → fd ∈ s.connection →
    Mailbox.take fd s.requests = some ((session, request), rest) →
    p ∈ s.entries → p.request = request → p.response = some text → request ∉ s.retired →
    step expired s (.message fd) = some t →
      t.responses = s.responses ++ [(fd, session, text)] ∧ t.invocations = s.invocations

structure Once (s : Server) : Prop where
  stands : ∀ session i, s.response session = some i →
    ∃ request, s.invocations[i]? = some (session, request)
  asked : ∀ session request, (session, request) ∈ s.invocations →
    s.asked[request]? = some session
  sent : ∀ fd session request, (fd, session, request) ∈ s.requests →
    s.asked[request]? = some session
  client : ∀ session last, s.client session = some last → s.asked[last.request]? = some session
  handled : ∀ session request, (session, request) ∈ s.invocations →
    ∃ last, s.latest session = some last ∧ request ≤ last
  kept : ∀ i session request, s.invocations[i]? = some (session, request) →
    s.latest session = some request → request ∉ s.retired → s.response session = some i
  once : ∀ request, request ∉ s.retired → (s.invocations.map Prod.snd).count request ≤ 1

variable {s t : Server} {fd i : Nat} {p : Entry} {session : Session} {request : Nat}

theorem start_once : Once .start where
  stands := fun _ _ found => by cases found
  asked := fun _ _ inside => by cases inside
  sent := fun _ _ _ inside => by cases inside
  client := fun _ _ found => by cases found
  handled := fun _ _ inside => by cases inside
  kept := fun _ _ _ found => by cases found
  once := fun _ _ => Nat.zero_le 1

theorem Once.congr (once : Once s) (invocations : t.invocations = s.invocations)
    (response : t.response = s.response) (asked : t.asked = s.asked)
    (requests : t.requests = s.requests) (client : t.client = s.client)
    (latest : t.latest = s.latest) (retired : t.retired = s.retired) : Once t := by
  refine ⟨?_, ?_, ?_, ?_, ?_, ?_, ?_⟩
  · rw [invocations, response]
    exact once.stands
  · rw [invocations, asked]
    exact once.asked
  · rw [requests, asked]
    exact once.sent
  · rw [client, asked]
    exact once.client
  · rw [invocations, latest]
    exact once.handled
  · rw [invocations, latest, retired, response]
    exact once.kept
  · rw [invocations, retired]
    exact once.once

theorem setEntry_invocations (found : s.entries[i]? = some p) (q : Entry)
    (session : q.session = p.session) (request : q.request = p.request) :
    (s.setEntry i q).invocations = s.invocations := by
  obtain ⟨bound, here⟩ := List.getElem?_eq_some_iff.mp found
  have inside : i < s.invocations.length := by simpa [Server.invocations] using bound
  have same : (q.session, q.request) = s.invocations[i] := by
    simp [Server.invocations, here, session, request]
  simp only [Server.invocations, Server.setEntry, List.map_set]
  rw [same]
  exact List.set_getElem_self _

theorem invocation_entry (found : s.invocations[i]? = some (session, request)) :
    ∃ p, s.entries[i]? = some p ∧ p.session = session ∧ p.request = request := by
  simp only [Server.invocations, List.getElem?_map, Option.map_eq_some_iff, Prod.mk.injEq] at found
  exact found

theorem entry_invocation (found : s.entries[i]? = some p) :
    s.invocations[i]? = some (p.session, p.request) := by
  simp [Server.invocations, found]

theorem Once.setEntry (once : Once s) (found : s.entries[i]? = some p) (q : Entry)
    (session : q.session = p.session) (request : q.request = p.request) :
    Once (s.setEntry i q) :=
  once.congr (setEntry_invocations found q session request) rfl rfl rfl rfl rfl rfl

theorem Once.send (once : Once s) (fd : Nat) (session : Session) (text : List UInt8) :
    Once (s.send fd session text) := by
  unfold Server.send
  split_ifs
  · exact once.congr rfl rfl rfl rfl rfl rfl rfl
  · exact once

theorem send_entries (s : Server) (fd : Nat) (session : Session) (text : List UInt8) :
    (s.send fd session text).entries = s.entries := by
  unfold Server.send
  split_ifs <;> rfl

theorem retireResponse_invocations (expired : Nat) (s : Server) :
    (s.retireResponse expired).invocations = s.invocations := by
  unfold Server.retireResponse
  split_ifs
  · refine List.ext_getElem? ?_
    intro i
    simp only [Server.invocations, List.getElem?_map, List.getElem?_mapIdx, Option.map_map]
    congr 1
    funext p
    simp only [Function.comp]
    split_ifs <;> rfl
  · rfl

theorem Once.retireResponse (once : Once s) (expired : Nat) :
    Once (s.retireResponse expired) := by
  have same := retireResponse_invocations expired s
  unfold Server.retireResponse at same ⊢
  split_ifs at same ⊢ with full
  · refine ⟨?_, ?_, once.sent, once.client, ?_, ?_, ?_⟩
    · intro session i stored
      rw [same]
      exact once.stands session i (Option.filter_eq_some_iff.mp stored).1
    · rw [same]
      exact once.asked
    · rw [same]
      exact once.handled
    · intro i session request found last fresh
      rw [same] at found
      obtain ⟨p, here, _, of⟩ := invocation_entry found
      have stored := once.kept i session request found last
        (fun old => fresh (List.mem_append_left _ old))
      refine Option.filter_eq_some_iff.mpr ⟨stored, ?_⟩
      simp only [here, Option.any_some, Bool.not_eq_true']
      refine Bool.eq_false_iff.mpr ?_
      intro gone
      refine fresh (List.mem_append_right _ (List.mem_map.mpr ⟨(p, i), ?_, of⟩))
      exact List.mem_filter.mpr ⟨List.mem_zipIdx_iff_getElem?.mpr here, gone⟩
    · intro request fresh
      rw [same]
      exact once.once request fun old => fresh (List.mem_append_left _ old)
  · exact once

theorem answer_invocations (expired : Nat) (found : s.entries[i]? = some p) :
    (s.answer expired i p).invocations = s.invocations := by
  unfold Server.answer
  rw [retireResponse_invocations]
  have entries : ∀ after : Server, after.entries = s.entries →
      (after.setEntry i { p with returnFd := none }).invocations = s.invocations := by
    intro after same
    rw [setEntry_invocations (p := p) (same ▸ found) { p with returnFd := none } rfl rfl]
    simp only [Server.invocations, same]
  refine entries _ ?_
  split
  · exact send_entries _ _ _ _
  · rfl

theorem Once.answer (once : Once s) (expired : Nat) (found : s.entries[i]? = some p) :
    Once (s.answer expired i p) := by
  have counted : Once { s with index := s.index + 1 } :=
    once.congr rfl rfl rfl rfl rfl rfl rfl
  unfold Server.answer
  refine Once.retireResponse ?_ expired
  split
  · refine (counted.send _ _ _).setEntry (p := p) ?_ _ rfl rfl
    rw [send_entries]
    exact found
  · exact counted.setEntry (p := p) found _ rfl rfl

theorem Once.clear (once : Once s) (last : s.latest session = some request)
    (other : ∀ i p, s.response session = some i → s.entries[i]? = some p → p.request ≠ request) :
    Once (s.clear session) := by
  refine ⟨?_, once.asked, once.sent, once.client, once.handled, ?_, once.once⟩
  · intro of i stored
    by_cases here : of = session
    · simp [Server.clear, here] at stored
    · simp only [Server.clear, Function.update_of_ne here] at stored
      exact once.stands of i stored
  · intro i of request' found latest fresh
    by_cases here : of = session
    · subst here
      cases latest.symm.trans last
      obtain ⟨p, there, _, is⟩ := invocation_entry found
      exact absurd is (other i p (once.kept i of request found last fresh) there)
    · simp only [Server.clear, Function.update_of_ne here]
      exact once.kept i of request' found latest fresh

theorem Once.invoke (once : Once s) (fd : Nat) (last : s.latest session = some request)
    (asked : s.asked[request]? = some session) (free : s.response session = none) :
    Once (s.invoke fd session request) := by
  have added : (s.invoke fd session request).invocations = s.invocations ++ [(session, request)] := by
    simp [Server.invocations, Server.invoke]
  have length : s.entries.length = s.invocations.length := by simp [Server.invocations]
  have first : request ∉ s.retired → (session, request) ∉ s.invocations := by
    intro fresh inside
    obtain ⟨i, found⟩ := List.mem_iff_getElem?.mp inside
    have stored := once.kept i session request found last fresh
    rw [free] at stored
    cases stored
  refine ⟨?_, ?_, once.sent, once.client, ?_, ?_, ?_⟩
  · intro of i stored
    rw [added]
    by_cases here : of = session
    · simp only [Server.invoke, here, Function.update_self, Option.some.injEq] at stored
      rw [here, ← stored, length]
      exact ⟨request, List.getElem?_concat_length⟩
    · simp only [Server.invoke, Function.update_of_ne here] at stored
      obtain ⟨other, found⟩ := once.stands of i stored
      refine ⟨other, ?_⟩
      rw [List.getElem?_append_left (List.getElem?_eq_some_iff.mp found).1]
      exact found
  · intro of other inside
    rw [added] at inside
    rcases List.mem_append.mp inside with old | new_
    · exact once.asked of other old
    · cases List.mem_singleton.mp new_
      exact asked
  · intro of other inside
    rw [added] at inside
    rcases List.mem_append.mp inside with old | new_
    · exact once.handled of other old
    · cases List.mem_singleton.mp new_
      exact ⟨request, last, Nat.le_refl _⟩
  · intro i of other found latest fresh
    rw [added] at found
    rcases Nat.lt_or_ge i s.invocations.length with old | new_
    · rw [List.getElem?_append_left old] at found
      have apart : of ≠ session := by
        rintro rfl
        cases latest.symm.trans last
        exact first fresh (List.mem_iff_getElem?.mpr ⟨i, found⟩)
      simp only [Server.invoke, Function.update_of_ne apart]
      exact once.kept i of other found latest fresh
    · rw [List.getElem?_append_right new_] at found
      have position : i = s.entries.length := by
        have := (List.getElem?_eq_some_iff.mp found).1
        simp at this
        omega
      simp only [position, length, Nat.sub_self, List.getElem?_cons_zero, Option.some.injEq,
        Prod.mk.injEq] at found
      rw [position, ← found.1]
      simp [Server.invoke]
  · intro other fresh
    have before := once.once other fresh
    rw [added, List.map_append, List.count_append]
    by_cases same : other = request
    · subst same
      have none_ : (s.invocations.map Prod.snd).count other = 0 := by
        refine List.count_eq_zero.mpr ?_
        intro inside
        obtain ⟨⟨of, _⟩, there, rfl⟩ := List.mem_map.mp inside
        cases (once.asked of _ there).symm.trans asked
        exact first fresh there
      simp [none_]
    · simpa [Ne.symm same] using before

theorem Once.handle (once : Once s) {rest : List (Nat × Session × Nat)}
    (taken : Mailbox.take fd s.requests = some ((session, request), rest))
    (timely : s.overtaken session request = false) :
    Once { s with
      requests := rest
      latest := Function.update s.latest session (some request) } := by
  have perm := Mailbox.take_perm taken
  have newest : ∀ last, s.latest session = some last → last ≤ request := by
    intro last is
    simpa [Server.overtaken, is] using timely
  have asked := once.sent fd session request (perm.mem_iff.mpr List.mem_cons_self)
  refine ⟨once.stands, once.asked, ?_, once.client, ?_, ?_, once.once⟩
  · intro fd of other inside
    exact once.sent fd of other (perm.mem_iff.mpr (List.mem_cons_of_mem _ inside))
  · intro of other inside
    obtain ⟨last, is, bound⟩ := once.handled of other inside
    by_cases here : of = session
    · subst here
      exact ⟨request, Function.update_self .., bound.trans (newest last is)⟩
    · exact ⟨last, (Function.update_of_ne here ..).trans is, bound⟩
  · intro i of other found latest fresh
    by_cases here : of = session
    · subst here
      simp only [Function.update_self, Option.some.injEq] at latest
      subst latest
      obtain ⟨last, is, bound⟩ := once.handled of request (List.mem_of_getElem? found)
      exact once.kept i of request found (is.trans (congrArg some (le_antisymm (newest last is) bound)))
        fresh
    · simp only [Function.update_of_ne here] at latest
      exact once.kept i of other found latest fresh

theorem Once.doRequest (once : Once s) (expired fd : Nat) (last : s.latest session = some request)
    (asked : s.asked[request]? = some session) (timely : s.current session request = false) :
    Once (s.doRequest expired fd session request) := by
  unfold Server.doRequest
  split_ifs with connected
  · cases stored : s.response session with
    | none => exact once.invoke fd last asked stored
    | some i =>
      simp only
      cases found : s.entries[i]? with
      | none => exact once
      | some p =>
        simp only
        have other : p.version = some s.version → p.request ≠ request := by
          intro same is
          simp [Server.current, stored, found, same, is] at timely
        split_ifs with same
        · have cleared : Once (s.clear session) := by
            refine once.clear last ?_
            intro j q there here
            cases stored.symm.trans there
            cases found.symm.trans here
            exact other same
          cases p.response with
          | none => exact cleared.congr rfl rfl rfl rfl rfl rfl rfl
          | some text => exact cleared.invoke fd last asked (Function.update_self ..)
        · have again := once.setEntry found
            { p with returnFd := some fd, version := some s.version, index := some s.index } rfl rfl
          split
          · exact again
          · refine again.answer expired ?_
            exact List.getElem?_set_self (List.getElem?_eq_some_iff.mp found).1
  · exact once

theorem Once.finish (once : Once s) (expired i fd : Nat) (ok : Bool) (result : List UInt8) :
    Once (s.finish expired i fd ok result) := by
  unfold Server.finish
  cases found : s.entries[i]? with
  | none => exact once
  | some p =>
    simp only
    cases packString (if ok then result ++ 1 :: p.session else 0 :: p.session) with
    | none =>
      simp only
      split_ifs
      · exact once.congr rfl rfl rfl rfl rfl rfl rfl
      · exact once
    | some text =>
      have done := once.setEntry found
        { p with response := some text, version := some s.version, index := some s.index } rfl rfl
      refine done.answer expired ?_
      exact List.getElem?_set_self (List.getElem?_eq_some_iff.mp found).1

theorem Once.step (once : Once s) {expired : Nat} {action : Action} (timely : Timely s action)
    (taken : step expired s action = some t) : Once t := by
  cases action with
  | connect fd index =>
    simp only [Msgserver.step] at taken
    split_ifs at taken
    exact Option.some.inj taken ▸ once.congr rfl rfl rfl rfl rfl rfl rfl
  | disconnect fd =>
    cases taken
    refine ⟨once.stands, once.asked, ?_, once.client, once.handled, once.kept, once.once⟩
    intro from_ session request inside
    exact once.sent from_ session request (List.mem_filter.mp inside).1
  | ask fd session =>
    simp only [Msgserver.step] at taken
    split_ifs at taken
    cases taken
    have longer : ∀ {request : Nat} {of : Session}, s.asked[request]? = some of →
        (s.asked ++ [session])[request]? = some of := by
      intro request of found
      rw [List.getElem?_append_left (List.getElem?_eq_some_iff.mp found).1]
      exact found
    have last : (s.asked ++ [session])[s.asked.length]? = some session :=
      List.getElem?_concat_length
    refine ⟨once.stands, ?_, ?_, ?_, once.handled, once.kept, once.once⟩
    · intro of request inside
      exact longer (once.asked of request inside)
    · intro from_ of request inside
      rcases List.mem_append.mp inside with old | new_
      · exact longer (once.sent from_ of request old)
      · cases List.mem_singleton.mp new_
        exact last
    · intro of current found
      by_cases here : of = session
      · subst here
        simp only [Function.update_self, Option.some.injEq] at found
        exact found ▸ last
      · simp only [Function.update_of_ne here] at found
        exact longer (once.client of current found)
  | resend fd session =>
    simp only [Msgserver.step] at taken
    cases found : s.client session with
    | none => simp [found] at taken
    | some last =>
      simp only [found] at taken
      split_ifs at taken
      cases taken
      refine ⟨once.stands, once.asked, ?_, once.client, once.handled, once.kept, once.once⟩
      intro from_ of request inside
      rcases List.mem_append.mp inside with old | new_
      · exact once.sent from_ of request old
      · cases List.mem_singleton.mp new_
        exact once.client session last found
  | message fd =>
    obtain ⟨⟨⟨session, request⟩, rest⟩, mail, after⟩ := Option.map_eq_some_iff.mp taken
    simp only at after
    have perm := Mailbox.take_perm mail
    split_ifs at after with opened
    · have now := timely opened
      simp only [mail, Option.all_some, Bool.and_eq_true, Bool.not_eq_true'] at now
      rw [← after]
      refine (once.handle mail now.1).doRequest expired fd (Function.update_self ..) ?_ now.2
      exact once.sent fd session request (perm.mem_iff.mpr List.mem_cons_self)
    · rw [← after]
      refine ⟨once.stands, once.asked, ?_, once.client, once.handled, once.kept, once.once⟩
      intro from_ of other inside
      exact once.sent from_ of other (perm.mem_iff.mpr (List.mem_cons_of_mem _ inside))
  | finish i ok result =>
    obtain ⟨⟨fd, rest⟩, _, after⟩ := Option.map_eq_some_iff.mp taken
    have left : Once { s with running := rest } := once.congr rfl rfl rfl rfl rfl rfl rfl
    exact after ▸ left.finish expired i fd ok result
  | receive fd =>
    obtain ⟨⟨⟨session, _⟩, rest⟩, _, after⟩ := Option.map_eq_some_iff.mp taken
    rw [← after]
    refine ⟨once.stands, once.asked, once.sent, ?_, once.handled, once.kept, once.once⟩
    intro of last found
    by_cases here : of = session
    · subst here
      simp only [Function.update_self, Option.map_eq_some_iff] at found
      obtain ⟨before, known, rfl⟩ := found
      exact once.client of before known
    · simp only [Function.update_of_ne here] at found
      exact once.client of last found

theorem retireResponse_responses (expired : Nat) (s : Server) :
    (s.retireResponse expired).responses = s.responses := by
  unfold Server.retireResponse
  split_ifs <;> rfl

theorem Once.answered (once : Once s) (expired : Nat) (timely : Timely s (.message fd)) :
    Answered expired s fd := by
  intro session request rest p text t opened connected mail inside of stored fresh taken
  obtain ⟨i, found⟩ := List.mem_iff_getElem?.mp inside
  have now := timely opened
  simp only [mail, Option.all_some, Bool.and_eq_true, Bool.not_eq_true'] at now
  have asked := once.sent fd session request ((Mailbox.take_perm mail).mem_iff.mpr List.mem_cons_self)
  have invoked := entry_invocation found
  have same : p.session = session := by
    have := once.asked _ _ (List.mem_of_getElem? invoked)
    rw [of] at this
    exact Option.some.inj (this.symm.trans asked)
  rw [same, of] at invoked
  obtain ⟨last, latest, bound⟩ := once.handled _ _ (List.mem_of_getElem? invoked)
  have newest : s.latest session = some request := by
    have := now.1
    simp only [Server.overtaken, latest, Option.any_some, decide_eq_false_iff_not, not_lt] at this
    exact latest.trans (congrArg some (le_antisymm this bound))
  have stands := once.kept i session request invoked newest fresh
  have older : p.version ≠ some s.version := by
    intro is
    have := now.2
    simp [Server.current, stands, found, of, is] at this
  simp only [Msgserver.step, mail, Option.map_some, opened, if_true, Option.some.injEq] at taken
  simp only [Server.doRequest, connected, if_true, stands, found, older, if_false, stored] at taken
  rw [← taken]
  constructor
  · simp only [Server.answer, retireResponse_responses, Server.setEntry, Server.send, connected,
      if_true, same]
  · rw [answer_invocations]
    · refine setEntry_invocations (p := p) ?_ _ ?_ ?_
      · exact found
      · rfl
      · rfl
    · exact List.getElem?_set_self (List.getElem?_eq_some_iff.mp found).1

theorem run_once (expired : Nat) (actions : List Action)
    (timely : Transition.Along (step expired) Timely .start actions)
    (reached : Transition.run (step expired) .start actions = some s) : Once s := by
  have path := Transition.Path.of_run actions (.refl Server.start) timely reached
  exact path.invariant Once (fun _ _ _ once timely taken => once.step timely taken) start_once

theorem requests_once (expired : Nat) (actions : List Action) (s : Server)
    (timely : Transition.Along (step expired) Timely .start actions)
    (reached : Transition.run (step expired) .start actions = some s) :
    (∀ request, request ∉ s.retired → (s.invocations.map Prod.snd).count request ≤ 1) ∧
      ∀ fd, Timely s (.message fd) → Answered expired s fd := by
  have once := run_once expired actions timely reached
  exact ⟨once.once, fun fd now => once.answered expired now⟩

def resent : List Action :=
  [.connect 1 1, .ask 1 [7], .message 1, .finish 0 true [9], .disconnect 1, .connect 2 2,
    .resend 2 [7]]

theorem resent_once :
    ∃ s, Transition.run (step 128) .start resent = some s ∧
      (∀ request, request ∉ s.retired → (s.invocations.map Prod.snd).count request ≤ 1) ∧
        ∀ fd, Timely s (.message fd) → Answered 128 s fd :=
  ⟨_, rfl, requests_once 128 resent _ (by decide) rfl⟩

theorem handler_called_again :
    ∃ s, Transition.run (step 128) .start
        [.connect 1 1, .ask 1 [7], .message 1, .disconnect 1, .connect 2 2, .finish 0 true [9],
          .resend 2 [7], .message 2] = some s ∧
      ¬ ∀ request, request ∉ s.retired → (s.invocations.map Prod.snd).count request ≤ 1 := by
  refine ⟨_, rfl, ?_⟩
  intro once
  exact absurd (once 0 (by decide)) (by decide)

end Pskynet.Msgserver
