import Pskynet.Socketchannel.Channel

set_option autoImplicit false

namespace Pskynet.Socketchannel

variable {S D : Type}

def Result.connection : Result S D → Nat
  | .reply j _ => j
  | .socketError j => j

def Phase.popped : Phase → Option (Nat × Option Nat)
  | .read _ popped | .reading _ popped | .closing _ _ popped => popped
  | .forked | .loop | .blocking _ | .ended => none

def inHand (popped : Option (Nat × Option Nat)) : List Nat := (popped.bind Prod.snd).toList

def readOf : Nat × Result S D → Option (Nat × Option Nat × Answer S D)
  | (co, .reply j answer) => some (j, some co, answer)
  | (_, .socketError _) => none

namespace Channel

def asked (s : Channel S D) (j : Nat) : List Nat :=
  (s.registered.zipIdx.filter fun entry => entry.1.1 = j).map Prod.snd

def served (s : Channel S D) (j : Nat) : List Nat :=
  s.delivered.filterMap fun (co, result) =>
    match result with
    | .reply i _ => if i = j then some co else none
    | .socketError _ => none

end Channel

open Channel

structure Held (mode : Mode) (s : Channel S D) (hand : Option (Nat × Option Nat)) : Prop where
  aligned : s.request = s.thread
  order : mode = .order → s.sessions = []
  session : mode = .session → s.thread = [] ∧ hand = none
  own : ∀ func co, hand = some (func, co) → co = some func
  once : (s.delivered.map Prod.fst ++ (inHand hand ++ s.waiting)).Nodup
  bound : ∀ (co j : Nat) (response : Option S), s.registered[co]? = some (j, response) →
    j < s.connections
  newest : ∀ co ∈ inHand hand ++ s.waiting,
    ∃ j response, s.registered[co]? = some (j, response) ∧ j + 1 = s.connections
  keys : (s.sessions.map Prod.fst).Nodup
  keyed : ∀ session co, (session, co) ∈ s.sessions →
    ∃ j, s.registered[co]? = some (j, some session)
  fits : ∀ co result, (co, result) ∈ s.delivered →
    ∃ response, s.registered[co]? = some (result.connection, response)
  bears : mode = .session → ∀ co j answer, (co, Result.reply j answer) ∈ s.delivered →
    s.registered[co]? = some (j, answer.session)
  complete : ∀ (co j : Nat) (response : Option S), s.registered[co]? = some (j, response) →
    co ∈ s.delivered.map Prod.fst ∨ co ∈ s.replaced ∨
      (j + 1 = s.connections ∧ co ∈ inHand hand ++ s.waiting) ∨
        j + 1 < s.connections ∧ (s.dispatchers j).popped.isSome
  shut : ∀ j i, (j, i) ∈ s.shut → i = j
  read : mode = .order → s.replies = s.delivered.filterMap readOf
  served : mode = .order → ∀ j, s.served j <+: s.asked j
  next : mode = .order → ∀ j, j + 1 = s.connections → s.served j ++ inHand hand <+: s.asked j
  exact_ : mode = .order → ∀ j, s.sock = some j →
    s.served j ++ (inHand hand ++ s.thread) = s.asked j

variable {mode : Mode} {s : Channel S D} {k j : Nat} {hand : Option (Nat × Option Nat)}

theorem start_held (mode : Mode) : Held mode (Channel.start : Channel S D) none where
  aligned := rfl
  order := fun _ => rfl
  session := fun _ => ⟨rfl, rfl⟩
  own := fun _ _ is => by cases is
  once := List.nodup_nil
  bound := fun _ _ _ found => by cases found
  newest := fun _ inside => by cases inside
  keys := List.nodup_nil
  keyed := fun _ _ inside => by cases inside
  fits := fun _ _ inside => by cases inside
  bears := fun _ _ _ _ inside => by cases inside
  complete := fun _ _ _ found => by cases found
  shut := fun _ _ inside => by cases inside
  read := fun _ => rfl
  served := fun _ _ => List.nil_prefix
  next := fun _ _ is => by cases is
  exact_ := fun _ _ is => by cases is

-- The parts of the state that carry `Held`.
structure Agree (s t : Channel S D) : Prop where
  request : t.request = s.request
  thread : t.thread = s.thread
  sessions : t.sessions = s.sessions
  connections : t.connections = s.connections
  registered : t.registered = s.registered
  delivered : t.delivered = s.delivered
  replies : t.replies = s.replies
  replaced : t.replaced = s.replaced
  older : ∀ k, k + 1 < s.connections → t.dispatchers k = s.dispatchers k

theorem Held.agree {t : Channel S D} (held : Held mode s hand) (agree : Agree s t)
    (shut : ∀ j i, (j, i) ∈ t.shut → i = j) (sock : ∀ j, t.sock = some j → s.sock = some j) :
    Held mode t hand := by
  obtain ⟨request, thread, sessions, connections, registered, delivered, replies, replaced, older⟩ :=
    agree
  have served : ∀ j, t.served j = s.served j := fun j => by simp only [Channel.served, delivered]
  have asked : ∀ j, t.asked j = s.asked j := fun j => by simp only [Channel.asked, registered]
  have waiting : t.waiting = s.waiting := by simp only [Channel.waiting, thread, sessions]
  refine ⟨?_, ?_, ?_, held.own, ?_, ?_, ?_, ?_, ?_, ?_, ?_, ?_, shut, ?_, ?_, ?_, ?_⟩
  · rw [request, thread]
    exact held.aligned
  · rw [sessions]
    exact held.order
  · rw [thread]
    exact held.session
  · rw [delivered, waiting]
    exact held.once
  · rw [registered, connections]
    exact held.bound
  · rw [waiting, registered, connections]
    exact held.newest
  · rw [sessions]
    exact held.keys
  · rw [sessions, registered]
    exact held.keyed
  · rw [delivered, registered]
    exact held.fits
  · rw [delivered, registered]
    exact held.bears
  · rw [registered, delivered, replaced, connections, waiting]
    intro co j response found
    rcases held.complete co j response found with given | gone | here | ⟨before, there⟩
    · exact .inl given
    · exact .inr (.inl gone)
    · exact .inr (.inr (.inl here))
    · exact .inr (.inr (.inr ⟨before, (older j before).symm ▸ there⟩))
  · rw [replies, delivered]
    exact held.read
  · intro is j
    rw [served, asked]
    exact held.served is j
  · intro is j
    rw [served, asked, connections]
    exact held.next is j
  · intro is j there
    rw [served, asked, thread]
    exact held.exact_ is j (sock j there)

structure Gives (mode : Mode) (s t : Channel S D) (hand left : Option (Nat × Option Nat))
    (given : List (Nat × Result S D)) : Prop where
  connections : t.connections = s.connections
  registered : t.registered = s.registered
  delivered : t.delivered = s.delivered ++ given
  replaced : t.replaced = s.replaced
  older : ∀ k, k + 1 < s.connections → t.dispatchers k = s.dispatchers k
  aligned : t.request = t.thread
  sessions : t.sessions.Sublist s.sessions
  session : mode = .session → t.thread = [] ∧ left = none
  own : ∀ func co, left = some (func, co) → co = some func
  perm : (given.map Prod.fst ++ (inHand left ++ t.waiting)).Perm (inHand hand ++ s.waiting)
  fits : ∀ co result, (co, result) ∈ given → result.connection + 1 = s.connections
  bears : mode = .session → ∀ co j answer, (co, Result.reply j answer) ∈ given →
    s.registered[co]? = some (j, answer.session)
  shut : t.shut = s.shut
  read : mode = .order → t.replies = s.replies ++ given.filterMap readOf
  next : mode = .order → ∀ j, j + 1 = s.connections → t.served j ++ inHand left <+: s.asked j
  exact_ : mode = .order → ∀ j, t.sock = some j →
    t.served j ++ (inHand left ++ t.thread) = s.asked j

theorem served_older {t : Channel S D} {given : List (Nat × Result S D)}
    (delivered : t.delivered = s.delivered ++ given)
    (fits : ∀ co result, (co, result) ∈ given → result.connection + 1 = s.connections)
    (older : j + 1 ≠ s.connections) : t.served j = s.served j := by
  simp only [Channel.served, delivered, List.filterMap_append]
  have none_ : (given.filterMap fun (co, result) =>
      match result with
      | .reply i _ => if i = j then some co else none
      | .socketError _ => none) = [] := by
    refine List.filterMap_eq_nil_iff.mpr ?_
    rintro ⟨co, result⟩ inside
    have on := fits co result inside
    cases result with
    | socketError => rfl
    | reply i answer =>
      have apart : i ≠ j := by
        rintro rfl
        exact older on
      simp [apart]
  rw [none_, List.append_nil]

theorem Held.gives {t : Channel S D} {left : Option (Nat × Option Nat)}
    (given : List (Nat × Result S D)) (held : Held mode s hand)
    (gives : Gives mode s t hand left given) : Held mode t left := by
  have asked : ∀ j, t.asked j = s.asked j := fun j => by
    simp only [Channel.asked, gives.registered]
  have waited : ∀ co, co ∈ given.map Prod.fst ++ (inHand left ++ t.waiting) →
      ∃ j response, s.registered[co]? = some (j, response) ∧ j + 1 = s.connections :=
    fun co inside => held.newest co (gives.perm.mem_iff.mp inside)
  refine ⟨gives.aligned, ?_, gives.session, gives.own, ?_, ?_, ?_, ?_, ?_, ?_, ?_, ?_, ?_, ?_, ?_,
    ?_, ?_⟩
  · intro is
    exact List.sublist_nil.mp (held.order is ▸ gives.sessions)
  · rw [gives.delivered, List.map_append, List.append_assoc]
    exact (gives.perm.append_left _).nodup_iff.mpr held.once
  · rw [gives.registered, gives.connections]
    exact held.bound
  · intro co inside
    rw [gives.registered, gives.connections]
    exact waited co (List.mem_append_right _ inside)
  · exact held.keys.sublist (gives.sessions.map _)
  · intro session co inside
    rw [gives.registered]
    exact held.keyed session co (gives.sessions.subset inside)
  · intro co result inside
    rw [gives.registered]
    rw [gives.delivered] at inside
    rcases List.mem_append.mp inside with old | new_
    · exact held.fits co result old
    · obtain ⟨j, response, found, on⟩ :=
        waited co (List.mem_append_left _ (List.mem_map_of_mem (f := Prod.fst) new_))
      have same : j = result.connection := by
        have := gives.fits co result new_
        omega
      exact ⟨response, same ▸ found⟩
  · intro is co j answer inside
    rw [gives.registered]
    rw [gives.delivered] at inside
    rcases List.mem_append.mp inside with old | new_
    · exact held.bears is co j answer old
    · exact gives.bears is co j answer new_
  · intro co j response found
    rw [gives.registered] at found
    rw [gives.delivered, gives.replaced, gives.connections, List.map_append]
    rcases held.complete co j response found with old | gone | ⟨on, here⟩ | ⟨before, there⟩
    · exact .inl (List.mem_append_left _ old)
    · exact .inr (.inl gone)
    · rcases List.mem_append.mp (gives.perm.mem_iff.mpr here) with new_ | kept
      · exact .inl (List.mem_append_right _ new_)
      · exact .inr (.inr (.inl ⟨on, kept⟩))
    · exact .inr (.inr (.inr ⟨before, (gives.older j before).symm ▸ there⟩))
  · rw [gives.shut]
    exact held.shut
  · intro is
    rw [gives.read is, gives.delivered, List.filterMap_append, held.read is]
  · intro is j
    rw [asked]
    by_cases newest : j + 1 = s.connections
    · exact (List.prefix_append _ _).trans (gives.next is j newest)
    · rw [served_older gives.delivered gives.fits newest]
      exact held.served is j
  · intro is j newest
    rw [asked]
    exact gives.next is j (gives.connections ▸ newest)
  · intro is j there
    rw [asked]
    exact gives.exact_ is j there

def errors (cos : List Nat) (j : Nat) : List (Nat × Result S D) :=
  cos.map fun co => (co, .socketError j)

theorem errors_fst (cos : List Nat) (j : Nat) :
    (errors (S := S) (D := D) cos j).map Prod.fst = cos := by
  simp [errors, Function.comp_def]

theorem mem_errors {cos : List Nat} {co : Nat} {result : Result S D}
    (inside : (co, result) ∈ errors cos j) : result = .socketError j := by
  obtain ⟨_, _, is⟩ := List.mem_map.mp inside
  cases is
  rfl

theorem errors_readOf (cos : List Nat) (j : Nat) :
    (errors (S := S) (D := D) cos j).filterMap readOf = [] := by
  refine List.filterMap_eq_nil_iff.mpr ?_
  rintro ⟨co, result⟩ inside
  rw [mem_errors inside]
  rfl

theorem served_errors {t : Channel S D} {cos : List Nat} {i : Nat}
    (delivered : t.delivered = s.delivered ++ errors cos i) (j : Nat) : t.served j = s.served j := by
  have none_ : ((errors cos i).filterMap fun (co, result) =>
      match (result : Result S D) with
      | .reply i _ => if i = j then some co else none
      | .socketError _ => none) = [] := by
    refine List.filterMap_eq_nil_iff.mpr ?_
    rintro ⟨co, result⟩ inside
    rw [mem_errors inside]
  simp only [Channel.served, delivered, List.filterMap_append]
  rw [none_, List.append_nil]

theorem Held.gives_errors {t : Channel S D} {left : Option (Nat × Option Nat)} (cos : List Nat)
    (held : Held mode s hand) (closed : t.sock = none) (newest : j + 1 = s.connections)
    (agree : Agree { s with
      request := t.request, thread := t.thread, sessions := t.sessions
      delivered := s.delivered ++ errors cos j } t)
    (aligned : t.request = t.thread) (sessions : t.sessions.Sublist s.sessions)
    (session : mode = .session → t.thread = [])
    (lefts : left = hand ∨ left = none)
    (perm : (cos ++ (inHand left ++ t.waiting)).Perm (inHand hand ++ s.waiting))
    (shut : t.shut = s.shut) : Held mode t left := by
  have served := served_errors (s := s) agree.delivered
  refine held.gives (errors cos j) ⟨agree.connections, agree.registered, agree.delivered,
    agree.replaced, agree.older, aligned, sessions, ?_, ?_, ?_, ?_, ?_, shut, ?_, ?_, ?_⟩
  · intro is
    rcases lefts with same | none_
    · exact ⟨session is, same.trans (held.session is).2⟩
    · exact ⟨session is, none_⟩
  · intro func co is
    rcases lefts with same | none_
    · exact held.own func co (same ▸ is)
    · cases none_.symm.trans is
  · rw [errors_fst]
    exact perm
  · intro co result inside
    rw [mem_errors inside]
    exact newest
  · intro _ co i answer inside
    cases mem_errors inside
  · intro _
    rw [errors_readOf, List.append_nil]
    exact agree.replies
  · intro is i on
    rw [served]
    rcases lefts with same | none_
    · exact same ▸ held.next is i on
    · rw [none_]
      exact (List.append_nil (s.served i)).symm ▸ held.served is i
  · intro _ i there
    cases closed.symm.trans there

theorem Held.handFails (held : Held mode s hand) (closed : s.sock = none)
    (newest : j + 1 = s.connections) :
    Held mode (s.deliver (hand.bind Prod.snd) (.socketError j)) none := by
  refine held.gives_errors (inHand hand) closed newest
    ⟨rfl, rfl, rfl, rfl, rfl, rfl, rfl, rfl, fun _ _ => rfl⟩
    held.aligned (.refl _) (fun is => (held.session is).1) (.inr rfl) ?_ rfl
  exact .refl _

theorem Held.wakeupAll (held : Held mode s hand) (closed : s.sock = none)
    (newest : j + 1 = s.connections) : Held mode (s.wakeupAll mode j) hand := by
  cases mode with
  | session =>
    obtain ⟨thread, _⟩ := held.session rfl
    refine held.gives_errors (s.sessions.map Prod.snd) closed newest ?_ held.aligned ?_ ?_
      (.inl rfl) ?_ rfl
    · exact ⟨rfl, rfl, rfl, rfl, rfl, by simp [Channel.wakeupAll, errors, Function.comp_def],
        rfl, rfl, fun _ _ => rfl⟩
    · exact List.nil_sublist _
    · exact fun _ => thread
    · simp only [Channel.waiting, Channel.wakeupAll, thread, List.map_nil, List.append_nil,
        List.nil_append]
      exact List.perm_append_comm
  | order =>
    have sessions := held.order rfl
    refine held.gives_errors s.thread closed newest
      ⟨rfl, rfl, rfl, rfl, rfl, rfl, rfl, rfl, fun _ _ => rfl⟩ rfl
      (.refl _) (fun is => by cases is) (.inl rfl) ?_ rfl
    simp only [Channel.waiting, Channel.wakeupAll, sessions, List.map_nil, List.append_nil]
    exact List.perm_append_comm

theorem wakeupAll_waiting (held : Held mode s hand) (j : Nat) :
    (s.wakeupAll mode j).waiting = [] := by
  cases mode with
  | session => simp [Channel.waiting, Channel.wakeupAll, (held.session rfl).1]
  | order => simp [Channel.waiting, Channel.wakeupAll, held.order rfl]

theorem lookup_perm [DecidableEq S] {entries : List (S × Nat)} {session : S} {co : Nat}
    (keys : (entries.map Prod.fst).Nodup) (found : entries.lookup session = some co) :
    entries.Perm ((session, co) :: entries.filter (·.1 ≠ session)) := by
  induction entries with
  | nil => cases found
  | cons entry rest ih =>
    obtain ⟨key, value⟩ := entry
    obtain ⟨apart, later⟩ := List.nodup_cons.mp keys
    by_cases here : session = key
    · subst here
      simp only [List.lookup_cons_self, Option.some.injEq] at found
      subst found
      have all : rest.filter (·.1 ≠ session) = rest := by
        refine List.filter_eq_self.mpr ?_
        intro entry inside
        refine decide_eq_true ?_
        intro same
        have member := List.mem_map_of_mem (f := Prod.fst) inside
        rw [same] at member
        exact apart member
      rw [List.filter_cons_of_neg (by simp), all]
    · have other : (session == key) = false := by simpa using here
      simp only [List.lookup_cons, other] at found
      have kept : ((key, value) :: rest).filter (·.1 ≠ session) =
          (key, value) :: rest.filter (·.1 ≠ session) := by simp [Ne.symm here]
      rw [kept]
      exact ((ih later found).cons _).trans (.swap _ _ _)

theorem lookup_none [DecidableEq S] {entries : List (S × Nat)} {session : S}
    (missing : entries.lookup session = none) : entries.filter (·.1 ≠ session) = entries := by
  refine List.filter_eq_self.mpr ?_
  rintro ⟨key, value⟩ inside
  refine decide_eq_true ?_
  rintro rfl
  have := List.lookup_eq_none_iff.mp missing _ inside
  simp at this

theorem served_reply {t : Channel S D} {i : Nat} (co : Nat) (answer : Answer S D)
    (delivered : t.delivered = s.delivered ++ [(co, .reply i answer)]) :
    t.served i = s.served i ++ [co] := by
  simp [Channel.served, delivered]

theorem Held.newest_of_mem (held : Held mode s hand) {co : Nat}
    (inside : co ∈ inHand hand ++ s.waiting) {response : Option S}
    (found : s.registered[co]? = some (j, response)) : j + 1 = s.connections := by
  obtain ⟨i, other, there, on⟩ := held.newest co inside
  cases found.symm.trans there
  exact on

theorem Held.answered_order {func : Nat} (answer : Answer S D)
    (held : Held .order s (some (func, some func))) (newest : j + 1 = s.connections)
    (sock : ∀ i, s.sock = some i → i + 1 = s.connections) :
    Held .order ({ s with replies := s.replies ++ [(j, some func, answer)] }.deliver (some func)
      (.reply j answer)) none := by
  refine held.gives [(func, .reply j answer)] ⟨rfl, rfl, rfl, rfl, fun _ _ => rfl,
    held.aligned, .refl _, ?_, ?_, .refl _, ?_, ?_, rfl, ?_, ?_, ?_⟩
  · intro is
    cases is
  · intro _ _ is
    cases is
  · intro co result inside
    cases List.mem_singleton.mp inside
    exact newest
  · intro is
    cases is
  · exact fun _ => rfl
  · intro _ i on
    have same : i = j := by omega
    subst same
    rw [served_reply (s := s) func answer rfl]
    simpa [inHand] using held.next rfl i on
  · intro _ i there
    have same : i = j := by
      have := sock i there
      omega
    subst same
    rw [served_reply (s := s) func answer rfl]
    have before := held.exact_ rfl i there
    simp only [inHand, Option.bind_some, Option.toList_some, List.singleton_append] at before
    simp only [inHand, Option.bind_none, Option.toList_none, List.nil_append, List.append_assoc,
      List.singleton_append]
    exact before

theorem Held.answered_session [DecidableEq S] (func : Option Nat) {answer : Answer S D} {session : S}
    (held : Held .session s hand) (newest : j + 1 = s.connections)
    (bears : answer.session = some session) :
    Held .session ({ s with
        replies := s.replies ++ [(j, func, answer)]
        sessions := s.sessions.filter (·.1 ≠ session) }.deliver (s.sessions.lookup session)
          (.reply j answer)) none := by
  obtain ⟨thread, free⟩ := held.session rfl
  subst free
  refine held.gives ((s.sessions.lookup session).toList.map fun co => (co, .reply j answer))
    ⟨rfl, rfl, rfl, rfl, fun _ _ => rfl, held.aligned, List.filter_sublist,
      fun _ => ⟨thread, rfl⟩, ?_, ?_, ?_, ?_, rfl, ?_, ?_, ?_⟩
  · intro _ _ is
    cases is
  · cases found : s.sessions.lookup session with
    | none =>
      simp only [Channel.waiting, Channel.deliver, inHand, lookup_none found]
      exact .refl _
    | some co =>
      have perm := (lookup_perm held.keys found).map Prod.snd
      simp only [Channel.waiting, Channel.deliver, inHand, thread]
      exact perm.symm
  · intro co result inside
    obtain ⟨_, _, is⟩ := List.mem_map.mp inside
    cases is
    exact newest
  · intro _ co i other inside
    obtain ⟨_, there, is⟩ := List.mem_map.mp inside
    cases is
    have found := Option.mem_toList.mp there
    have member := (lookup_perm held.keys found).mem_iff.mpr List.mem_cons_self
    obtain ⟨i, registered⟩ := held.keyed session co member
    have waits := List.mem_map_of_mem (f := Prod.snd) member
    have inside : co ∈ inHand none ++ s.waiting :=
      List.mem_append_right _ (List.mem_append_right _ waits)
    have on := held.newest_of_mem inside registered
    have same : i = j := by omega
    rw [registered, bears, same]
  · intro is
    cases is
  · intro is
    cases is
  · intro is
    cases is

theorem Held.pop {func : Nat} (held : Held .order s none) (found : s.request.head? = some func)
    (sock : s.sock = some j) (newest : j + 1 = s.connections) :
    Held .order { s with request := s.request.tail, thread := s.thread.tail }
      (some (func, s.thread.head?)) := by
  have sessions := held.order rfl
  obtain ⟨rest, request⟩ : ∃ rest, s.request = func :: rest := by
    cases is : s.request with
    | nil =>
      rw [is] at found
      cases found
    | cons first rest =>
      rw [is] at found
      cases found
      exact ⟨rest, rfl⟩
  have thread : s.thread = func :: rest := held.aligned ▸ request
  have head : s.thread.head? = some func := by rw [thread]; rfl
  have waiting : s.waiting = func :: rest := by simp [Channel.waiting, thread, sessions]
  have left : Channel.waiting { s with request := s.request.tail, thread := s.thread.tail } = rest := by
    simp [Channel.waiting, thread, sessions]
  have exact_ := held.exact_ rfl j sock
  simp only [inHand, Option.bind_none, Option.toList_none, List.nil_append, thread] at exact_
  rw [head]
  refine held.gives [] ⟨rfl, rfl, (List.append_nil _).symm, rfl, fun _ _ => rfl, ?_,
    .refl _, ?_, ?_, ?_, ?_, ?_, rfl, ?_, ?_, ?_⟩
  · exact congrArg List.tail held.aligned
  · intro is
    cases is
  · intro _ _ is
    cases is
    rfl
  · rw [left, waiting]
    exact .refl _
  · intro _ _ inside
    cases inside
  · intro is
    cases is
  · exact fun _ => (List.append_nil _).symm
  · intro _ i on
    have same : i = j := by omega
    subst same
    refine ⟨rest, ?_⟩
    rw [← exact_]
    exact List.append_assoc _ [func] rest
  · intro _ i there
    cases sock.symm.trans there
    rw [← exact_]
    simp only [thread, List.tail_cons]
    rfl

theorem pushed_asked (s : Channel S D) (j i : Nat) (response : Option S) :
    Channel.asked { s with registered := s.registered ++ [(j, response)] } i =
      s.asked i ++ if j = i then [s.registered.length] else [] := by
  simp only [Channel.asked, List.zipIdx_append, List.filter_append, List.map_append,
    List.zipIdx_singleton, Nat.zero_add]
  by_cases here : j = i
  · simp [here]
  · simp [here]

theorem Held.known (held : Held mode s hand) {co : Nat}
    (inside : co ∈ s.delivered.map Prod.fst ++ (inHand hand ++ s.waiting)) :
    co < s.registered.length := by
  rcases List.mem_append.mp inside with old | waits
  · obtain ⟨⟨co, result⟩, there, rfl⟩ := List.mem_map.mp old
    obtain ⟨response, found⟩ := held.fits co result there
    exact (List.getElem?_eq_some_iff.mp found).1
  · obtain ⟨i, response, found, _⟩ := held.newest co waits
    exact (List.getElem?_eq_some_iff.mp found).1

theorem Held.pushed {t : Channel S D} {response : Option S} (held : Held mode s hand)
    (sock : s.sock = some j) (newest : j + 1 = s.connections)
    (agree : Agree { s with
      request := t.request, thread := t.thread, sessions := t.sessions, replaced := t.replaced
      registered := s.registered ++ [(j, response)] } t)
    (gone : ∀ co ∈ s.replaced, co ∈ t.replaced)
    (shut : t.shut = s.shut) (kept : t.sock = s.sock)
    (order : mode = .order → t.request = s.request ++ [s.registered.length] ∧
      t.thread = s.thread ++ [s.registered.length] ∧ t.sessions = s.sessions)
    (session : mode = .session → t.request = s.request ∧ t.thread = s.thread ∧
      ∃ key, response = some key ∧ ∃ others, others.Sublist s.sessions ∧
        (∀ entry ∈ others, entry.1 ≠ key) ∧
          (∀ entry ∈ s.sessions, entry ∈ others ∨ entry.2 ∈ t.replaced) ∧
            t.sessions = others ++ [(key, s.registered.length)]) :
    Held mode t hand := by
  obtain ⟨request, thread, sessions, connections, registered, delivered, replies, replaced, older⟩ :=
    agree
  have fresh : ∀ {co}, co ∈ s.delivered.map Prod.fst ++ (inHand hand ++ s.waiting) →
      co ≠ s.registered.length := fun inside => (held.known inside).ne
  have longer : ∀ {co : Nat} {value : Nat × Option S}, s.registered[co]? = some value →
      t.registered[co]? = some value := by
    intro co value found
    rw [registered]
    exact (List.getElem?_append_left (List.getElem?_eq_some_iff.mp found).1).trans found
  have last : t.registered[s.registered.length]? = some (j, response) := by
    rw [registered]
    exact List.getElem?_concat_length
  have served : ∀ i, t.served i = s.served i := fun i => by simp only [Channel.served, delivered]
  have asked : ∀ i, t.asked i = s.asked i ++ if j = i then [s.registered.length] else [] := by
    intro i
    rw [← pushed_asked s j i response]
    simp only [Channel.asked, registered]
  -- What waits is what waited before and the new request.
  have waits : ∃ before, before.Sublist s.waiting ∧
      (∀ co ∈ s.waiting, co ∈ before ∨ co ∈ t.replaced) ∧
        t.waiting = before ++ [s.registered.length] := by
    cases mode with
    | order =>
      obtain ⟨_, thread, sessions⟩ := order rfl
      refine ⟨s.waiting, .refl _, fun _ inside => .inl inside, ?_⟩
      simp [Channel.waiting, thread, sessions, held.order rfl]
    | session =>
      obtain ⟨_, thread, key, _, others, fewer, _, rest, sessions⟩ := session rfl
      refine ⟨s.thread ++ others.map Prod.snd, (fewer.map _).append_left _, ?_, ?_⟩
      · intro co inside
        rcases List.mem_append.mp inside with first | second
        · exact .inl (List.mem_append_left _ first)
        · obtain ⟨entry, there, rfl⟩ := List.mem_map.mp second
          rcases rest entry there with kept | new_
          · exact .inl (List.mem_append_right _ (List.mem_map_of_mem kept))
          · exact .inr new_
      · simp [Channel.waiting, thread, sessions]
  obtain ⟨before, fewer, rest, waiting⟩ := waits
  refine ⟨?_, ?_, ?_, held.own, ?_, ?_, ?_, ?_, ?_, ?_, ?_, ?_, ?_, ?_, ?_, ?_, ?_⟩
  · cases mode with
    | order =>
      obtain ⟨request, thread, _⟩ := order rfl
      rw [request, thread, held.aligned]
    | session =>
      obtain ⟨request, thread, _⟩ := session rfl
      rw [request, thread, held.aligned]
  · intro is
    rw [(order is).2.2]
    exact held.order is
  · intro is
    rw [(session is).2.1]
    exact held.session is
  · rw [delivered, waiting, ← List.append_assoc, ← List.append_assoc]
    refine List.Nodup.append ?_ (List.nodup_singleton _) ?_
    · rw [List.append_assoc]
      exact held.once.sublist ((fewer.append_left _).append_left _)
    · rw [List.append_assoc, List.disjoint_singleton]
      intro inside
      exact fresh (((fewer.append_left _).append_left _).subset inside) rfl
  · intro co i value found
    rw [connections]
    rw [registered] at found
    rcases Nat.lt_or_ge co s.registered.length with old | new_
    · exact held.bound co i value ((List.getElem?_append_left old).symm.trans found)
    · rw [List.getElem?_append_right new_, List.getElem?_singleton] at found
      split_ifs at found
      cases found
      exact newest ▸ Nat.lt_succ_self _
  · intro co inside
    rw [connections]
    rw [waiting, ← List.append_assoc] at inside
    rcases List.mem_append.mp inside with old | new_
    · obtain ⟨i, value, found, on⟩ := held.newest co ((fewer.append_left _).subset old)
      exact ⟨i, value, longer found, on⟩
    · rw [List.mem_singleton.mp new_]
      exact ⟨j, response, last, newest⟩
  · cases mode with
    | order =>
      rw [(order rfl).2.2]
      exact held.keys
    | session =>
      obtain ⟨_, _, key, _, others, fewer, apart, _, sessions⟩ := session rfl
      rw [sessions, List.map_append]
      refine List.Nodup.append (held.keys.sublist (fewer.map _)) (List.nodup_singleton _) ?_
      intro other old new_
      cases List.mem_singleton.mp new_
      obtain ⟨entry, there, is⟩ := List.mem_map.mp old
      exact apart entry there is
  · intro key co inside
    cases mode with
    | order =>
      rw [(order rfl).2.2] at inside
      obtain ⟨i, found⟩ := held.keyed key co inside
      exact ⟨i, longer found⟩
    | session =>
      obtain ⟨_, _, new_, is, others, fewer, _, _, sessions⟩ := session rfl
      rw [sessions] at inside
      rcases List.mem_append.mp inside with old | here
      · obtain ⟨i, found⟩ := held.keyed key co (fewer.subset old)
        exact ⟨i, longer found⟩
      · cases List.mem_singleton.mp here
        exact ⟨j, is ▸ last⟩
  · intro co result inside
    rw [delivered] at inside
    obtain ⟨value, found⟩ := held.fits co result inside
    exact ⟨value, longer found⟩
  · intro is co i answer inside
    rw [delivered] at inside
    exact longer (held.bears is co i answer inside)
  · intro co i value found
    rw [delivered, connections, waiting]
    rw [registered] at found
    rcases Nat.lt_or_ge co s.registered.length with old | new_
    · rw [List.getElem?_append_left old] at found
      rcases held.complete co i value found with given | gone' | ⟨on, here⟩ | ⟨before', there⟩
      · exact .inl given
      · exact .inr (.inl (gone co gone'))
      · rcases List.mem_append.mp here with first | second
        · exact .inr (.inr (.inl ⟨on, List.mem_append_left _ first⟩))
        · rcases rest co second with kept | lost
          · exact .inr (.inr (.inl
              ⟨on, List.mem_append_right _ (List.mem_append_left _ kept)⟩))
          · exact .inr (.inl lost)
      · exact .inr (.inr (.inr ⟨before', (older i before').symm ▸ there⟩))
    · have last : co = s.registered.length := by
        have := (List.getElem?_eq_some_iff.mp found).1
        simp only [List.length_append, List.length_singleton] at this
        omega
      rw [last, List.getElem?_concat_length] at found
      cases found
      refine .inr (.inr (.inl ⟨newest, ?_⟩))
      exact List.mem_append_right _ (List.mem_append_right _ (List.mem_singleton.mpr last))
  · rw [shut]
    exact held.shut
  · rw [replies, delivered]
    exact held.read
  · intro is i
    rw [served, asked]
    exact (held.served is i).trans (List.prefix_append _ _)
  · intro is i on
    rw [served, asked]
    exact (held.next is i (connections ▸ on)).trans (List.prefix_append _ _)
  · intro is i there
    cases (kept.symm.trans there).symm.trans sock
    rw [served, asked, (order is).2.1, ← held.exact_ is _ sock]
    simp

theorem Held.opened {t : Channel S D} (held : Held mode s hand) (free : s.waiting = [])
    (agree : Agree { s with connections := t.connections } t) (shut : t.shut = s.shut)
    (more : t.connections = s.connections + 1) (sock : t.sock = some s.connections)
    (popped : ∀ j, j + 1 = s.connections → (s.dispatchers j).popped = hand) :
    Held mode t none := by
  obtain ⟨request, thread, sessions, connections, registered, delivered, replies, replaced, older⟩ :=
    agree
  obtain ⟨noThread, noSessions⟩ := List.append_eq_nil_iff.mp free
  have waiting : t.waiting = [] := by simp [Channel.waiting, thread, sessions, noThread, noSessions]
  have served : ∀ j, t.served j = s.served j := fun j => by simp only [Channel.served, delivered]
  have asked : ∀ j, t.asked j = s.asked j := fun j => by simp only [Channel.asked, registered]
  have first : s.asked s.connections = [] := by
    refine List.map_eq_nil_iff.mpr (List.filter_eq_nil_iff.mpr ?_)
    rintro ⟨⟨j, response⟩, co⟩ inside is
    have found := List.mem_zipIdx_iff_getElem?.mp inside
    have := held.bound co j response found
    simp only [decide_eq_true_eq] at is
    omega
  have all : mode = .order → s.served s.connections = [] := by
    intro is
    exact List.prefix_nil.mp (first ▸ held.served is s.connections)
  refine ⟨?_, ?_, ?_, ?_, ?_, ?_, ?_, ?_, ?_, ?_, ?_, ?_, ?_, ?_, ?_, ?_, ?_⟩
  · rw [request, thread]
    exact held.aligned
  · rw [sessions]
    exact held.order
  · rw [thread]
    exact fun is => ⟨(held.session is).1, rfl⟩
  · intro _ _ is
    cases is
  · rw [delivered, waiting]
    simpa [inHand] using held.once.sublist (List.sublist_append_left _ _)
  · intro co j response found
    rw [registered] at found
    rw [more]
    exact (held.bound co j response found).trans (Nat.lt_succ_self _)
  · intro co inside
    rw [waiting] at inside
    cases inside
  · rw [sessions]
    exact held.keys
  · rw [sessions, registered]
    exact held.keyed
  · rw [delivered, registered]
    exact held.fits
  · rw [delivered, registered]
    exact held.bears
  · intro co j response found
    rw [registered] at found
    rw [delivered, replaced, more]
    have bound := held.bound co j response found
    rcases held.complete co j response found with given | gone | ⟨on, here⟩ | ⟨before, there⟩
    · exact .inl given
    · exact .inr (.inl gone)
    · refine .inr (.inr (.inr ⟨Nat.succ_lt_succ bound, ?_⟩))
      rw [free, List.append_nil] at here
      rw [older j (by show j + 1 < t.connections; omega), popped j on]
      cases hand with
      | none => cases here
      | some _ => rfl
    · refine .inr (.inr (.inr ⟨Nat.succ_lt_succ bound, ?_⟩))
      rw [older j (by show j + 1 < t.connections; omega)]
      exact there
  · rw [shut]
    exact held.shut
  · rw [replies, delivered]
    exact held.read
  · intro is j
    rw [served, asked]
    exact held.served is j
  · intro is j _
    rw [served, asked]
    simpa [inHand] using held.served is j
  · intro is j there
    cases sock.symm.trans there
    rw [served, asked, thread, noThread, all is, first]
    rfl

end Pskynet.Socketchannel
