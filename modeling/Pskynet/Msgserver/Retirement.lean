import Pskynet.Msgserver.Once

set_option autoImplicit false

namespace Pskynet.Msgserver

namespace Server

-- The entry of which the response is completed or sent again in a step: the steps that reach the
-- increment of `u.index`.
def answers (s : Server) : Action → Option Nat
  | .message fd =>
      (Mailbox.take fd s.requests).bind fun ((session, _), _) =>
        if fd ∈ s.opened ∧ fd ∈ s.connection then
          (s.response session).filter fun i =>
            s.entries[i]?.any fun p => p.version != some s.version && p.response.isSome
        else none
  | .finish i ok result =>
      (Mailbox.take i s.running).bind fun _ =>
        (s.entries[i]?.bind fun p =>
          packString (if ok then result ++ 1 :: p.session else 0 :: p.session)).map fun _ => i
  | _ => none

end Server

structure Tracked where
  server : Server
  history : List Nat

namespace Tracked

def start : Tracked where
  server := .start
  history := []

def step (expired : Nat) (x : Tracked) (action : Action) : Option Tracked :=
  (Msgserver.step expired x.server action).map fun t =>
    { server := t, history := (x.server.answers action).toList ++ x.history }

end Tracked

def since (i : Nat) (history : List Nat) : Nat := (history.takeWhile (· ≠ i)).length

def Completed (s : Server) (i : Nat) (p : Entry) : Prop :=
  s.response p.session = some i ∧ s.entries[i]? = some p ∧ p.returnFd = none

-- Completed entries have indexes of their own below `u.index`, and no more of them lie between
-- than answers came.
structure Spaced (s : Server) (history : List Nat) : Prop where
  stands : ∀ session i, s.response session = some i →
    ∃ p, s.entries[i]? = some p ∧ p.session = session
  pending : ∀ (i : Nat) (p : Entry), s.entries[i]? = some p → (p.returnFd = none ↔ p.response.isSome = true)
  indexed : ∀ i p, Completed s i p → ∃ k, p.index = some k ∧ k < s.index ∧
    s.index ≤ k + 1 + since i history
  apart : ∀ i j p q, Completed s i p → Completed s j q → i ≠ j → p.index ≠ q.index

variable {s t : Server} {history : List Nat} {expired i : Nat} {p q : Entry} {session : Session}

@[simp] theorem since_self (i : Nat) (history : List Nat) : since i (i :: history) = 0 := by
  simp [since]

theorem since_other (i j : Nat) (history : List Nat) (other : j ≠ i) :
    since i (j :: history) = since i history + 1 := by
  simp [since, other]

theorem start_spaced : Spaced .start [] where
  stands := fun _ _ found => by cases found
  pending := fun _ _ found => by cases found
  indexed := by
    rintro i p ⟨found, _⟩
    cases found
  apart := by
    rintro i j p q ⟨found, _⟩
    cases found

section Retire

theorem complete_iff (found : s.entries[i]? = some p) :
    s.complete i p = true ↔ Completed s i p := by
  simp [Server.complete, Completed, found]

theorem expires_iff (found : s.entries[i]? = some p) :
    s.expires expired i p = true ↔ Completed s i p ∧ p.index.getD 0 < expired := by
  rw [Server.expires, Bool.and_eq_true, complete_iff found, decide_eq_true_iff]

theorem ages_iff (found : s.entries[i]? = some p) :
    s.ages expired i p = true ↔ Completed s i p ∧ expired ≤ p.index.getD 0 := by
  rw [Server.ages, Bool.and_eq_true, complete_iff found]
  simp

def agedIndexes (expired : Nat) (s : Server) : List Nat :=
  (s.entries.zipIdx.filter fun (p, i) => s.ages expired i p).map fun (p, _) =>
    p.index.getD 0 - expired

theorem mem_agedIndexes (value : Nat) :
    value ∈ agedIndexes expired s ↔ ∃ i p, Completed s i p ∧ expired ≤ p.index.getD 0 ∧
      value = p.index.getD 0 - expired := by
  simp only [agedIndexes, List.mem_map, List.mem_filter, Prod.exists]
  constructor
  · rintro ⟨p, i, ⟨inside, aged⟩, same⟩
    have found := List.mem_zipIdx_iff_getElem?.mp inside
    obtain ⟨done, old⟩ := (ages_iff found).mp aged
    exact ⟨i, p, done, old, same.symm⟩
  · rintro ⟨i, p, done, old, same⟩
    exact ⟨p, i, ⟨List.mem_zipIdx_iff_getElem?.mpr done.2.1, (ages_iff done.2.1).mpr ⟨done, old⟩⟩,
      same.symm⟩

theorem retireResponse_of_few (few : ¬expired * 2 ≤ s.index) : s.retireResponse expired = s := by
  rw [Server.retireResponse, if_neg few]

theorem retireResponse_index (full : expired * 2 ≤ s.index) :
    (s.retireResponse expired).index = (agedIndexes expired s).foldl max 0 + 1 := by
  rw [Server.retireResponse, if_pos full]
  rfl

theorem retireResponse_entry (full : expired * 2 ≤ s.index) (i : Nat) :
    (s.retireResponse expired).entries[i]? = s.entries[i]?.map fun p =>
      if s.ages expired i p then { p with index := p.index.map (· - expired) } else p := by
  rw [Server.retireResponse, if_pos full]
  exact List.getElem?_mapIdx

theorem retireResponse_response (full : expired * 2 ≤ s.index) (session : Session) (i : Nat) :
    (s.retireResponse expired).response session = some i ↔
      s.response session = some i ∧
        ∀ p, s.entries[i]? = some p → s.expires expired i p = false := by
  rw [Server.retireResponse, if_pos full]
  simp only [Option.filter_eq_some_iff, Bool.not_eq_true']
  refine and_congr_right fun _ => ?_
  cases found : s.entries[i]? with
  | none => simp
  | some p => simp

theorem retireResponse_pending (stored : s.response session = some i)
    (found : s.entries[i]? = some p) (pending : p.returnFd ≠ none) (expired : Nat) :
    (s.retireResponse expired).response session = some i ∧
      (s.retireResponse expired).entries[i]? = some p := by
  by_cases full : expired * 2 ≤ s.index
  · refine ⟨(retireResponse_response full session i).mpr ⟨stored, ?_⟩, ?_⟩
    · intro q same
      cases found.symm.trans same
      apply Bool.eq_false_of_not_eq_true
      intro gone
      exact pending ((expires_iff found).mp gone).1.2.2
    · rw [retireResponse_entry full, found, Option.map_some, if_neg]
      intro aged
      exact pending ((ages_iff found).mp aged).1.2.2
  · rw [retireResponse_of_few full]
    exact ⟨stored, found⟩

theorem retireResponse_completed (full : expired * 2 ≤ s.index)
    (done : Completed (s.retireResponse expired) i p) :
    ∃ before, Completed s i before ∧ expired ≤ before.index.getD 0 ∧
      p.index = before.index.map (· - expired) := by
  obtain ⟨stored, found, complete⟩ := done
  rw [retireResponse_entry full, Option.map_eq_some_iff] at found
  obtain ⟨before, there, same⟩ := found
  have session : p.session = before.session := by
    rw [← same]
    split_ifs <;> rfl
  have fd : p.returnFd = before.returnFd := by
    rw [← same]
    split_ifs <;> rfl
  rw [session] at stored
  obtain ⟨cached, kept⟩ := (retireResponse_response full _ _).mp stored
  have was : Completed s i before := ⟨cached, there, fd.symm.trans complete⟩
  have old : expired ≤ before.index.getD 0 := by
    by_contra young
    have gone := (expires_iff there).mpr ⟨was, not_le.mp young⟩
    rw [kept before there] at gone
    cases gone
  refine ⟨before, was, old, ?_⟩
  rw [if_pos ((ages_iff there).mpr ⟨was, old⟩)] at same
  rw [← same]

theorem le_foldl_max (values : List Nat) (value start : Nat) (inside : value ∈ values) :
    value ≤ values.foldl max start := by
  induction values generalizing start with
  | nil => cases inside
  | cons first rest ih =>
    rcases List.mem_cons.mp inside with same | later
    · have grows : ∀ (list : List Nat) (n : Nat), n ≤ list.foldl max n := by
        intro list
        induction list with
        | nil => exact fun _ => le_rfl
        | cons x list ih => exact fun n => (le_max_left n x).trans (ih _)
      rw [List.foldl_cons, same]
      exact (le_max_right start first).trans (grows rest _)
    · exact ih _ later

theorem foldl_max_le (values : List Nat) (bound start : Nat) (first : start ≤ bound)
    (all : ∀ value ∈ values, value ≤ bound) : values.foldl max start ≤ bound := by
  induction values generalizing start with
  | nil => exact first
  | cons x rest ih =>
    exact ih _ (max_le first (all x List.mem_cons_self))
      fun value inside => all value (List.mem_cons_of_mem _ inside)

theorem Spaced.retireResponse (spaced : Spaced s history) (expired : Nat) :
    Spaced (s.retireResponse expired) history := by
  by_cases full : expired * 2 ≤ s.index
  · refine ⟨?_, ?_, ?_, ?_⟩
    · intro session i stored
      obtain ⟨cached, _⟩ := (retireResponse_response full _ _).mp stored
      obtain ⟨p, found, same⟩ := spaced.stands session i cached
      rw [retireResponse_entry full, found]
      refine ⟨_, rfl, ?_⟩
      dsimp only
      split_ifs <;> exact same
    · intro i p found
      rw [retireResponse_entry full, Option.map_eq_some_iff] at found
      obtain ⟨before, there, same⟩ := found
      have now := spaced.pending i before there
      rw [← same]
      split_ifs <;> exact now
    · intro i p done
      obtain ⟨before, was, old, index⟩ := retireResponse_completed full done
      obtain ⟨k, is, below, close⟩ := spaced.indexed i before was
      rw [is, Option.getD_some] at old
      refine ⟨k - expired, by rw [index, is, Option.map_some], ?_, ?_⟩
      · rw [retireResponse_index full, Nat.lt_succ_iff]
        apply le_foldl_max
        refine (mem_agedIndexes _).mpr ⟨i, before, was, ?_, ?_⟩ <;> rw [is, Option.getD_some]
        exact old
      · -- The largest index that stays was below `u.index`, so that this has moved as far at least.
        have largest : (agedIndexes expired s).foldl max 0 ≤ s.index - 1 - expired := by
          apply foldl_max_le _ _ _ (Nat.zero_le _)
          intro value inside
          obtain ⟨j, other, done_, old_, same⟩ := (mem_agedIndexes value).mp inside
          obtain ⟨l, is_, below_, _⟩ := spaced.indexed j other done_
          rw [is_, Option.getD_some] at old_ same
          omega
        rw [retireResponse_index full]
        omega
    · intro i j p q doneI doneJ other
      obtain ⟨beforeI, wasI, oldI, indexI⟩ := retireResponse_completed full doneI
      obtain ⟨beforeJ, wasJ, oldJ, indexJ⟩ := retireResponse_completed full doneJ
      obtain ⟨k, isI, _⟩ := spaced.indexed i beforeI wasI
      obtain ⟨l, isJ, _⟩ := spaced.indexed j beforeJ wasJ
      have different := spaced.apart i j beforeI beforeJ wasI wasJ other
      rw [isI, isJ, ne_eq, Option.some.injEq] at different
      rw [isI, Option.getD_some] at oldI
      rw [isJ, Option.getD_some] at oldJ
      rw [indexI, indexJ, isI, isJ, Option.map_some, Option.map_some, ne_eq, Option.some.injEq]
      omega
  · rw [retireResponse_of_few full]
    exact spaced

theorem Spaced.retired (spaced : Spaced s history) (stored : s.response session = some i)
    (gone : (s.retireResponse expired).response session ≠ some i) :
    ∃ p, Completed s i p ∧ p.index.getD 0 < expired ∧ expired * 2 ≤ s.index ∧
      expired ≤ since i history := by
  by_cases full : expired * 2 ≤ s.index
  · rw [ne_eq, retireResponse_response full, not_and, not_forall] at gone
    obtain ⟨p, out⟩ := gone stored
    rw [Classical.not_imp] at out
    obtain ⟨done, young⟩ := (expires_iff out.1).mp (by simpa using out.2)
    obtain ⟨k, is, _, close⟩ := spaced.indexed i p done
    have index := young
    rw [is, Option.getD_some] at index
    exact ⟨p, done, young, full, by omega⟩
  · rw [retireResponse_of_few full] at gone
    exact absurd stored gone

end Retire

section Steps

theorem answer_eq (expired : Nat) (s : Server) (i : Nat) (p : Entry) :
    ∃ u : Server, s.answer expired i p = u.retireResponse expired ∧
      u.entries = s.entries.set i { p with returnFd := none } ∧ u.index = s.index + 1 ∧
        u.response = s.response := by
  refine ⟨_, rfl, ?_⟩
  have sent (after : Server) (fd : Nat) (text : List UInt8) :
      (after.send fd p.session text).entries = after.entries ∧
        (after.send fd p.session text).index = after.index ∧
          (after.send fd p.session text).response = after.response := by
    unfold Server.send
    split_ifs <;> exact ⟨rfl, rfl, rfl⟩
  simp only [Server.setEntry]
  split
  · obtain ⟨entries, index, response⟩ := sent { s with index := s.index + 1 } _ _
    exact ⟨by rw [entries], index, response⟩
  · exact ⟨rfl, rfl, rfl⟩

-- The state in which `retire_response` begins, when entry `i` was completed or sent again.
structure Answering (s : Server) (i : Nat) (p : Entry) (u : Server) : Prop where
  before : ∃ q, s.entries[i]? = some q ∧ q.session = p.session
  text : p.response.isSome = true
  index : p.index = some s.index
  entries : u.entries = s.entries.set i { p with returnFd := none }
  counter : u.index = s.index + 1
  response : u.response = s.response

variable {u : Server}

theorem Answering.entry (answering : Answering s i p u) (j : Nat) :
    u.entries[j]? = if j = i then some { p with returnFd := none } else s.entries[j]? := by
  obtain ⟨q, found, _⟩ := answering.before
  have bound := (List.getElem?_eq_some_iff.mp found).1
  rw [answering.entries]
  by_cases here : j = i
  · subst here
    rw [if_pos rfl, List.getElem?_set_self bound]
  · rw [if_neg here, List.getElem?_set_ne (Ne.symm here)]

theorem Answering.completed (answering : Answering s i p u) {j : Nat} {q : Entry}
    (done : Completed u j q) :
    j = i ∧ q.index = some s.index ∨ j ≠ i ∧ Completed s j q := by
  obtain ⟨stored, found, complete⟩ := done
  rw [answering.entry] at found
  rw [answering.response] at stored
  by_cases here : j = i
  · rw [if_pos here] at found
    cases found
    exact .inl ⟨here, answering.index⟩
  · rw [if_neg here] at found
    exact .inr ⟨here, stored, found, complete⟩

theorem Spaced.answering (spaced : Spaced s history) (answering : Answering s i p u) :
    Spaced u (i :: history) := by
  obtain ⟨old, found, same⟩ := answering.before
  refine ⟨?_, ?_, ?_, ?_⟩
  · intro session j stored
    rw [answering.response] at stored
    obtain ⟨q, there, of⟩ := spaced.stands session j stored
    rw [answering.entry]
    by_cases here : j = i
    · subst here
      cases found.symm.trans there
      exact ⟨_, if_pos rfl, same.symm.trans of⟩
    · exact ⟨q, (if_neg here).trans there, of⟩
  · intro j q there
    rw [answering.entry] at there
    split_ifs at there
    · cases there
      exact iff_of_true rfl answering.text
    · exact spaced.pending j q there
  · intro j q done
    rcases answering.completed done with ⟨here, index⟩ | ⟨other, was⟩
    · refine ⟨s.index, index, ?_, ?_⟩ <;> rw [answering.counter]
      · exact Nat.lt_succ_self _
      · exact Nat.le_add_right _ _
    · obtain ⟨k, index, below, close⟩ := spaced.indexed j q was
      refine ⟨k, index, ?_, ?_⟩ <;> rw [answering.counter]
      · exact Nat.lt_succ_of_lt below
      · rw [since_other j i history (Ne.symm other)]
        omega
  · intro j l q r doneJ doneL other
    rcases answering.completed doneJ with ⟨hereJ, indexJ⟩ | ⟨otherJ, wasJ⟩ <;>
      rcases answering.completed doneL with ⟨hereL, indexL⟩ | ⟨otherL, wasL⟩
    · exact absurd (hereJ.trans hereL.symm) other
    · obtain ⟨k, index, below, _⟩ := spaced.indexed l r wasL
      rw [indexJ, index, ne_eq, Option.some.injEq]
      omega
    · obtain ⟨k, index, below, _⟩ := spaced.indexed j q wasJ
      rw [indexL, index, ne_eq, Option.some.injEq]
      omega
    · exact spaced.apart j l q r wasJ wasL other

def Reuses (s : Server) (action : Action) (session : Session) : Prop :=
  ∃ fd request rest i p, action = .message fd ∧
    Mailbox.take fd s.requests = some ((session, request), rest) ∧
      s.response session = some i ∧ s.entries[i]? = some p ∧ p.version = some s.version

structure Quiet (s t : Server) (reuses : Session → Prop) : Prop where
  index : t.index = s.index
  stands : ∀ session i, t.response session = some i →
    ∃ p, t.entries[i]? = some p ∧ p.session = session
  entries : ∀ (i : Nat) (p : Entry), t.entries[i]? = some p →
    p.returnFd ≠ none ∧ p.response = none ∨ s.entries[i]? = some p ∧
      ∀ session, t.response session = some i → s.response session = some i
  removed : ∀ session i, s.response session = some i → t.response session ≠ some i →
    reuses session

theorem Quiet.completed {reuses : Session → Prop} (quiet : Quiet s t reuses) (done : Completed t i p) :
    Completed s i p := by
  obtain ⟨stored, found, complete⟩ := done
  rcases quiet.entries i p found with ⟨pending, _⟩ | ⟨old, cached⟩
  · exact absurd complete pending
  · exact ⟨cached _ stored, old, complete⟩

theorem Spaced.quiet {reuses : Session → Prop} (spaced : Spaced s history)
    (quiet : Quiet s t reuses) :
    Spaced t history := by
  refine ⟨quiet.stands, ?_, ?_, ?_⟩
  · intro i p found
    rcases quiet.entries i p found with ⟨pending, none_⟩ | ⟨old, _⟩
    · rw [none_]
      exact iff_of_false pending (by simp)
    · exact spaced.pending i p old
  · intro i p done
    rw [quiet.index]
    exact spaced.indexed i p (quiet.completed done)
  · intro i j p q doneI doneJ other
    exact spaced.apart i j p q (quiet.completed doneI) (quiet.completed doneJ) other

theorem Spaced.still (spaced : Spaced s history) (reuses : Session → Prop)
    (index : t.index = s.index) (response : t.response = s.response)
    (entries : t.entries = s.entries) : Quiet s t reuses where
  index := index
  stands := by
    rw [response, entries]
    exact spaced.stands
  entries := by
    rw [response, entries]
    exact fun i p found => .inr ⟨found, fun _ stored => stored⟩
  removed := by
    rw [response]
    exact fun session i stored gone => absurd stored gone

def Effect (expired : Nat) (s t : Server) (action : Action) : Prop :=
  match s.answers action with
  | none => Quiet s t (Reuses s action)
  | some i => ∃ p u, Answering s i p u ∧ t = u.retireResponse expired

theorem setEntry_answer (found : s.entries[i]? = some q) (session : q.session = p.session)
    (text : p.response.isSome = true) (index : p.index = some s.index) (expired : Nat) :
    ∃ u, Answering s i p u ∧ (s.setEntry i p).answer expired i p = u.retireResponse expired := by
  obtain ⟨u, same, entries, counter, response⟩ := answer_eq expired (s.setEntry i p) i p
  refine ⟨u, ⟨⟨q, found, session⟩, text, index, ?_, counter, response⟩, same⟩
  rw [entries, Server.setEntry, List.set_set]

theorem removed_of_update {reuses : Session → Prop} {value : Option Nat}
    (response : t.response = Function.update s.response session value)
    (reused : ∀ i, s.response session = some i → reuses session) (other : Session) (i : Nat)
    (stored : s.response other = some i) (gone : t.response other ≠ some i) : reuses other := by
  by_cases here : other = session
  · subst here
    exact reused i stored
  · rw [response, Function.update_of_ne here] at gone
    exact absurd stored gone

theorem Spaced.invoked (spaced : Spaced s history) (reuses : Session → Prop) (new_ : Entry)
    (index : t.index = s.index) (entries : t.entries = s.entries ++ [new_])
    (response : t.response = Function.update s.response session (some s.entries.length))
    (of : new_.session = session) (pending : new_.returnFd ≠ none) (none_ : new_.response = none)
    (reused : ∀ i, s.response session = some i → reuses session) : Quiet s t reuses where
  index := index
  stands := by
    intro other i stored
    rw [response] at stored
    rw [entries]
    by_cases here : other = session
    · subst here
      rw [Function.update_self, Option.some.injEq] at stored
      rw [← stored]
      exact ⟨new_, List.getElem?_concat_length, of⟩
    · rw [Function.update_of_ne here] at stored
      obtain ⟨p, found, same⟩ := spaced.stands other i stored
      refine ⟨p, ?_, same⟩
      rw [List.getElem?_append_left (List.getElem?_eq_some_iff.mp found).1]
      exact found
  entries := by
    intro i p found
    rw [entries] at found
    rcases Nat.lt_or_ge i s.entries.length with old | last
    · rw [List.getElem?_append_left old] at found
      refine .inr ⟨found, ?_⟩
      intro other stored
      rw [response] at stored
      by_cases here : other = session
      · rw [here, Function.update_self, Option.some.injEq] at stored
        omega
      · rwa [Function.update_of_ne here] at stored
    · rw [List.getElem?_append_right last] at found
      have inside := List.mem_of_getElem? found
      rw [List.mem_singleton.mp inside]
      exact .inl ⟨pending, none_⟩
  removed := removed_of_update response reused

theorem Spaced.cleared (spaced : Spaced s history) (reuses : Session → Prop) (index : t.index = s.index)
    (entries : t.entries = s.entries)
    (response : t.response = Function.update s.response session none)
    (reused : ∀ i, s.response session = some i → reuses session) : Quiet s t reuses where
  index := index
  stands := by
    intro other i stored
    rw [response] at stored
    rw [entries]
    by_cases here : other = session
    · rw [here, Function.update_self] at stored
      cases stored
    · rw [Function.update_of_ne here] at stored
      exact spaced.stands other i stored
  entries := by
    intro i p found
    rw [entries] at found
    refine .inr ⟨found, ?_⟩
    intro other stored
    rw [response] at stored
    by_cases here : other = session
    · rw [here, Function.update_self] at stored
      cases stored
    · rwa [Function.update_of_ne here] at stored
  removed := removed_of_update response reused

theorem Spaced.again (spaced : Spaced s history) (reuses : Session → Prop) (found : s.entries[i]? = some q)
    (session : p.session = q.session) (pending : p.returnFd ≠ none) (none_ : p.response = none) :
    Quiet s (s.setEntry i p) reuses where
  index := rfl
  stands := by
    intro other j stored
    obtain ⟨r, there, same⟩ := spaced.stands other j stored
    have bound := (List.getElem?_eq_some_iff.mp there).1
    by_cases here : i = j
    · subst here
      cases found.symm.trans there
      exact ⟨p, List.getElem?_set_self bound, session.trans same⟩
    · exact ⟨r, (List.getElem?_set_ne here).trans there, same⟩
  entries := by
    intro j r there
    by_cases here : i = j
    · subst here
      rw [Server.setEntry, List.getElem?_set_self (List.getElem?_eq_some_iff.mp found).1] at there
      cases there
      exact .inl ⟨pending, none_⟩
    · rw [Server.setEntry, List.getElem?_set_ne here] at there
      exact .inr ⟨there, fun _ stored => stored⟩
  removed := fun _ _ stored gone => absurd stored gone

theorem doRequest_effect (spaced : Spaced s history) (reuses : Session → Prop) (expired fd request : Nat)
    (session : Session)
    (reuse : ∀ i p, s.response session = some i → s.entries[i]? = some p →
      p.version = some s.version → reuses session) :
    match (if fd ∈ s.connection then
        (s.response session).filter fun i =>
          s.entries[i]?.any fun p => p.version != some s.version && p.response.isSome
      else none) with
    | none => Quiet s (s.doRequest expired fd session request) reuses
    | some i => ∃ p u, Answering s i p u ∧
        s.doRequest expired fd session request = u.retireResponse expired := by
  unfold Server.doRequest
  by_cases connected : fd ∈ s.connection
  · rw [if_pos connected, if_pos connected]
    cases stored : s.response session with
    | none =>
      exact spaced.invoked reuses ⟨some fd, none, none, none, session, request⟩ rfl rfl rfl rfl
        (by simp) rfl (by simp [stored])
    | some i =>
      obtain ⟨p, found, of⟩ := spaced.stands session i stored
      have reused : p.version = some s.version →
          ∀ j, s.response session = some j → reuses session := by
        intro same j there
        cases stored.symm.trans there
        exact reuse i p stored found same
      simp only [Option.filter_some, found, Option.any_some]
      by_cases same : p.version = some s.version
      · simp only [same, bne_self_eq_false, Bool.false_and, if_true]
        cases text : p.response with
        | none => exact spaced.cleared reuses rfl rfl rfl (reused same)
        | some old =>
          refine spaced.invoked reuses ⟨some fd, none, none, none, session, request⟩ rfl rfl ?_ rfl
            (by simp) rfl (reused same)
          simp only [Server.clear, Server.invoke, Function.update_idem]
      · have differs : (p.version != some s.version) = true := by simpa using same
        simp only [differs, Bool.true_and, if_neg same]
        cases text : p.response with
        | none => exact spaced.again reuses found rfl (by simp) rfl
        | some old =>
          obtain ⟨u, answering, equal⟩ := setEntry_answer
            (p := { p with
              returnFd := some fd
              response := some old
              version := some s.version
              index := some s.index })
            found rfl rfl rfl expired
          exact ⟨_, u, answering, equal⟩
  · rw [if_neg connected, if_neg connected]
    exact spaced.still reuses rfl rfl rfl

theorem finish_effect (spaced : Spaced s history) (reuses : Session → Prop) (expired i fd : Nat) (ok : Bool)
    (result : List UInt8) :
    match s.entries[i]?.bind fun p =>
        packString (if ok then result ++ 1 :: p.session else 0 :: p.session) with
    | none => Quiet s (s.finish expired i fd ok result) reuses
    | some _ => ∃ p u, Answering s i p u ∧
        s.finish expired i fd ok result = u.retireResponse expired := by
  cases found : s.entries[i]? with
  | none =>
    rw [Server.finish, found]
    exact spaced.still reuses rfl rfl rfl
  | some p =>
    rw [Option.bind_some, Server.finish, found]
    dsimp only
    cases packed : packString (if ok then result ++ 1 :: p.session else 0 :: p.session) with
    | none =>
      split_ifs <;> exact spaced.still reuses rfl rfl rfl
    | some text =>
      obtain ⟨u, answering, equal⟩ := setEntry_answer
        (p := { p with response := some text, version := some s.version, index := some s.index })
        found rfl rfl rfl expired
      refine ⟨_, u, answering, ?_⟩
      rw [← equal]

theorem Spaced.congr (spaced : Spaced s history) (index : t.index = s.index)
    (response : t.response = s.response) (entries : t.entries = s.entries) : Spaced t history := by
  refine ⟨?_, ?_, ?_, ?_⟩
  · rw [response, entries]
    exact spaced.stands
  · rw [entries]
    exact spaced.pending
  · simp only [Completed, index, response, entries]
    exact spaced.indexed
  · simp only [Completed, response, entries]
    exact spaced.apart

theorem step_effect (spaced : Spaced s history) (action : Action)
    (taken : step expired s action = some t) : Effect expired s t action := by
  unfold Effect
  cases action with
  | connect fd index =>
    simp only [step] at taken
    split_ifs at taken
    cases taken
    exact spaced.still _ rfl rfl rfl
  | disconnect fd =>
    cases taken
    exact spaced.still _ rfl rfl rfl
  | ask fd session =>
    simp only [step] at taken
    split_ifs at taken
    cases taken
    exact spaced.still _ rfl rfl rfl
  | resend fd session =>
    simp only [step] at taken
    cases found : s.client session with
    | none => simp [found] at taken
    | some last =>
      simp only [found] at taken
      split_ifs at taken
      cases taken
      exact spaced.still _ rfl rfl rfl
  | receive fd =>
    obtain ⟨⟨⟨session, _⟩, rest⟩, _, after⟩ := Option.map_eq_some_iff.mp taken
    rw [← after]
    exact spaced.still _ rfl rfl rfl
  | message fd =>
    obtain ⟨⟨⟨session, request⟩, rest⟩, mail, after⟩ := Option.map_eq_some_iff.mp taken
    simp only at after
    simp only [Server.answers, mail, Option.bind_some]
    by_cases opened : fd ∈ s.opened
    · rw [if_pos opened] at after
      have effect := doRequest_effect (s := { s with
          requests := rest
          latest := Function.update s.latest session (some request) })
        (spaced.congr rfl rfl rfl) (Reuses s (.message fd)) expired fd request session
        fun i p stored found same => ⟨fd, request, rest, i, p, rfl, mail, stored, found, same⟩
      rw [after] at effect
      simp only [opened, true_and]
      split at effect <;> rename_i answered
      · rw [answered]
        exact ⟨effect.index, effect.stands, effect.entries, effect.removed⟩
      · obtain ⟨p, u, answering, same⟩ := effect
        rw [answered]
        exact ⟨p, u, ⟨answering.before, answering.text, answering.index, answering.entries,
          answering.counter, answering.response⟩, same⟩
    · rw [if_neg opened] at after
      rw [if_neg (by simp [opened]), ← after]
      exact spaced.still _ rfl rfl rfl
  | finish i ok result =>
    obtain ⟨⟨fd, rest⟩, mail, after⟩ := Option.map_eq_some_iff.mp taken
    simp only [Server.answers, mail, Option.bind_some]
    have effect := finish_effect (s := { s with running := rest }) (spaced.congr rfl rfl rfl)
      (Reuses s (.finish i ok result)) expired i fd ok result
    simp only at after
    rw [after] at effect
    split at effect <;> rename_i answered
    · rw [answered, Option.map_none]
      exact ⟨effect.index, effect.stands, effect.entries, effect.removed⟩
    · obtain ⟨p, u, answering, same⟩ := effect
      rw [answered, Option.map_some]
      exact ⟨p, u, ⟨answering.before, answering.text, answering.index, answering.entries,
        answering.counter, answering.response⟩, same⟩

theorem Spaced.effect (spaced : Spaced s history) {action : Action} (effect : Effect expired s t action) :
    Spaced t ((s.answers action).toList ++ history) := by
  unfold Effect at effect
  cases answered : s.answers action with
  | none =>
    rw [answered] at effect
    exact spaced.quiet effect
  | some i =>
    rw [answered] at effect
    obtain ⟨p, u, answering, same⟩ := effect
    rw [same]
    exact (spaced.answering answering).retireResponse expired

theorem Spaced.step (spaced : Spaced s history) (action : Action)
    (taken : Msgserver.step expired s action = some t) :
    Spaced t ((s.answers action).toList ++ history) :=
  spaced.effect (step_effect spaced action taken)

theorem Spaced.leaves (spaced : Spaced s history) (action : Action)
    (taken : Msgserver.step expired s action = some t) (stored : s.response session = some i)
    (gone : t.response session ≠ some i) :
    Reuses s action session ∨
      ∃ p, Completed s i p ∧ expired ≤ since i ((s.answers action).toList ++ history) := by
  have effect := step_effect spaced action taken
  unfold Effect at effect
  cases answered : s.answers action with
  | none =>
    rw [answered] at effect
    exact .inl (effect.removed session i stored gone)
  | some j =>
    rw [answered] at effect
    obtain ⟨p, u, answering, same⟩ := effect
    rw [same] at gone
    rw [← answering.response] at stored
    obtain ⟨q, done, young, full, far⟩ := (spaced.answering answering).retired stored gone
    rcases answering.completed done with ⟨here, index⟩ | ⟨_, was⟩
    · rw [index, Option.getD_some] at young
      rw [answering.counter] at full
      rw [here, since_self] at far
      omega
    · exact .inr ⟨q, was, far⟩

end Steps

section Runs

theorem tracked_spaced {x y : Tracked} {action : Action} (spaced : Spaced x.server x.history)
    (taken : Tracked.step expired x action = some y) : Spaced y.server y.history := by
  obtain ⟨t, stepped, same⟩ := Option.map_eq_some_iff.mp taken
  rw [← same]
  exact spaced.step action stepped

theorem run_spaced (expired : Nat) (actions : List Action) (x : Tracked)
    (reached : Transition.run (Tracked.step expired) .start actions = some x) :
    Spaced x.server x.history :=
  Transition.run_invariant (Tracked.step expired) (fun x => Spaced x.server x.history)
    (fun _ _ _ spaced taken => tracked_spaced spaced taken) actions _ x start_spaced reached

theorem retirement_keeps (expired : Nat) (actions : List Action) (x : Tracked)
    (reached : Transition.run (Tracked.step expired) .start actions = some x) :
    (∀ i p, Completed x.server i p → ∃ k, p.index = some k ∧ k < x.server.index) ∧
      (∀ i j p q, Completed x.server i p → Completed x.server j q → i ≠ j → p.index ≠ q.index) ∧
      (∀ action y session i, Tracked.step expired x action = some y →
        x.server.response session = some i → y.server.response session ≠ some i →
          Reuses x.server action session ∨
            ∃ p, Completed x.server i p ∧ expired ≤ since i y.history) ∧
      ∀ (s : Server) session i p, s.response session = some i → s.entries[i]? = some p →
        p.returnFd ≠ none → (s.retireResponse expired).response session = some i ∧
          (s.retireResponse expired).entries[i]? = some p := by
  have spaced := run_spaced expired actions x reached
  refine ⟨?_, spaced.apart, ?_, ?_⟩
  · intro i p done
    obtain ⟨k, index, below, _⟩ := spaced.indexed i p done
    exact ⟨k, index, below⟩
  · intro action y session i taken stored gone
    obtain ⟨t, stepped, same⟩ := Option.map_eq_some_iff.mp taken
    rw [← same] at gone ⊢
    exact spaced.leaves action stepped stored gone
  · intro s session i p stored found pending
    exact retireResponse_pending stored found pending expired

def crowded : List Action :=
  [.connect 1 1, .ask 1 [7], .message 1, .finish 0 true [9], .ask 1 [8], .message 1,
    .finish 1 true [9]]

theorem crowded_keeps :
    ∃ x, Transition.run (Tracked.step 1) .start crowded = some x ∧ x.server.response [7] = none ∧
      x.server.response [8] = some 1 ∧
      (∀ i p, Completed x.server i p → ∃ k, p.index = some k ∧ k < x.server.index) ∧
      (∀ i j p q, Completed x.server i p → Completed x.server j q → i ≠ j → p.index ≠ q.index) ∧
      (∀ action y session i, Tracked.step 1 x action = some y →
        x.server.response session = some i → y.server.response session ≠ some i →
          Reuses x.server action session ∨
            ∃ p, Completed x.server i p ∧ 1 ≤ since i y.history) ∧
      ∀ (s : Server) session i p, s.response session = some i → s.entries[i]? = some p →
        p.returnFd ≠ none → (s.retireResponse 1).response session = some i ∧
          (s.retireResponse 1).entries[i]? = some p :=
  ⟨_, rfl, by decide, by decide, retirement_keeps 1 crowded _ rfl⟩

end Runs

end Pskynet.Msgserver
