import Pskynet.Launcher.Answers

set_option autoImplicit false

namespace Pskynet.Launcher

open Transition

def ownVerdict (handle : Nat) (note : Nat × Note) : Option Answer :=
  match note.2 with
  | .remove _ true => none
  | _ => verdictOn handle note

def own (handle : Nat) (notes : List (Nat × Note)) : List Answer := notes.filterMap (ownVerdict handle)

theorem own_append (handle : Nat) (notes more : List (Nat × Note)) :
    own handle (notes ++ more) = own handle notes ++ own handle more := List.filterMap_append

def Reported (handle : Nat) (begun : Bool) (said : List Answer) : Life → Prop
  | .absent => False
  | .loading | .starting | .silent => begun = false ∧ said = []
  | .started => begun = true ∧ said = [.ok (some handle)]
  | .retired =>
      (begun = true ∧ (said = [.ok (some handle)] ∨ said = [.ok (some handle), .ok none])) ∨
      (begun = false ∧ (said = [] ∨ said = [.error] ∨ said = [.error, .ok none] ∨ said = [.ok none]))

structure Honest (s : System) : Prop where
  unknown : ∀ handle, s.life handle = .absent → own handle s.sent = []
  made : ∀ handle, s.life handle ≠ .absent → ∃ request, (request, handle) ∈ s.created
  reported : ∀ request handle, (request, handle) ∈ s.created →
    Reported handle (s.begun handle) (own handle (s.sent.drop (request + 1))) (s.life handle)

variable {s t : System} {self : Nat}

def Asked (s : System) : Prop :=
  ∀ request handle, (request, handle) ∈ s.created → request < s.sent.length

theorem Answered.asked (answered : Answered s) : Asked s := fun request handle inside =>
  (answered.requests request handle inside).trans_le answered.taken

structure Moves (s t : System) (handle : Nat) (more : List (Nat × Note)) : Prop where
  sent : t.sent = s.sent ++ more
  created : t.created = s.created
  known : s.life handle ≠ .absent
  others : ∀ other, other ≠ handle →
    t.life other = s.life other ∧ t.begun other = s.begun other ∧ own other more = []
  said : ∀ said, Reported handle (s.begun handle) said (s.life handle) →
    Reported handle (t.begun handle) (said ++ own handle more) (t.life handle)

theorem Reported.present {handle : Nat} {begun : Bool} {said : List Answer} {life : Life}
    (reported : Reported handle begun said life) : life ≠ .absent := by
  rintro rfl
  exact reported

theorem Honest.moves (honest : Honest s) (asked : Asked s) (handle : Nat)
    (more : List (Nat × Note)) (moves : Moves s t handle more) : Honest t := by
  have later {request other : Nat} (inside : (request, other) ∈ s.created) :
      t.sent.drop (request + 1) = s.sent.drop (request + 1) ++ more := by
    have before := asked request other inside
    rw [moves.sent, List.drop_append_of_le_length (by omega)]
  have reported (request other : Nat) (inside : (request, other) ∈ s.created) :
      Reported other (t.begun other) (own other (t.sent.drop (request + 1))) (t.life other) := by
    have before := honest.reported request other inside
    rw [later inside, own_append]
    by_cases same : other = handle
    · rw [same] at before ⊢
      exact moves.said _ before
    · obtain ⟨life, begun, nothing⟩ := moves.others other same
      rwa [life, begun, nothing, List.append_nil]
  constructor
  · intro other absent
    by_cases same : other = handle
    · obtain ⟨request, inside⟩ := honest.made handle moves.known
      rw [same] at absent
      exact absurd absent (reported request handle inside).present
    · obtain ⟨life, -, nothing⟩ := moves.others other same
      rw [moves.sent, own_append, nothing, List.append_nil]
      exact honest.unknown other (by rwa [← life])
  · intro other present
    rw [moves.created]
    by_cases same : other = handle
    · rw [same]
      exact honest.made handle moves.known
    · rw [(moves.others other same).1] at present
      exact honest.made other present
  · intro request other inside
    rw [moves.created] at inside
    exact reported request other inside

theorem Honest.quiet (honest : Honest s) (asked : Asked s) (more : List (Nat × Note))
    (sent : t.sent = s.sent ++ more) (created : t.created = s.created) (life : t.life = s.life)
    (begun : t.begun = s.begun) (silent : ∀ handle, own handle more = []) : Honest t := by
  constructor
  · intro handle absent
    rw [life] at absent
    rw [sent, own_append, silent, List.append_nil, honest.unknown handle absent]
  · rw [life, created]
    exact honest.made
  · intro request handle inside
    rw [created] at inside
    have before := asked request handle inside
    rw [life, begun, sent, List.drop_append_of_le_length (by omega), own_append, silent,
      List.append_nil]
    exact honest.reported request handle inside

theorem Honest.retire (honest : Honest s) (asked : Asked s) (source handle : Nat)
    (more : List (Nat × Note)) (only : more = [] ∨ more = [(source, .remove handle true)]) :
    Honest ((s.send more).retire handle) := by
  have silent (other : Nat) : own other more = [] := by
    obtain rfl | rfl := only <;> rfl
  unfold System.retire
  split
  · exact honest.quiet asked more rfl rfl rfl rfl silent
  · rename_i known
    refine honest.moves asked handle more ⟨rfl, rfl, known, ?_, ?_⟩
    · intro other same
      exact ⟨Function.update_of_ne same _ _, rfl, silent other⟩
    · intro said reported
      rw [silent, List.append_nil]
      change Reported handle (s.begun handle) said (Function.update s.life handle .retired handle)
      rw [Function.update_self]
      change Reported handle (s.begun handle) said (s.life handle) at reported
      cases life : s.life handle with
      | absent => exact absurd life known
      | loading | starting | silent =>
        rw [life] at reported
        obtain ⟨begun, nothing⟩ := reported
        exact .inr ⟨begun, .inl nothing⟩
      | started =>
        rw [life] at reported
        obtain ⟨begun, ok⟩ := reported
        exact .inl ⟨begun, .inl ok⟩
      | retired =>
        rw [life] at reported
        exact reported

theorem Honest.launched (honest : Honest s) (request handle : Nat)
    (service param : List UInt8) (fresh : s.life handle = .absent) :
    Honest (s.launchService request service param (some handle)) := by
  have none_ := honest.unknown handle fresh
  have life (other : Nat) : (s.launchService request service param (some handle)).life other =
      Function.update s.life handle .loading other := rfl
  have begun (other : Nat) : (s.launchService request service param (some handle)).begun other =
      Function.update s.begun handle false other := rfl
  constructor
  · intro other absent
    rw [life] at absent
    by_cases same : other = handle
    · rw [same, Function.update_self] at absent
      cases absent
    · rw [Function.update_of_ne same] at absent
      exact honest.unknown other absent
  · intro other present
    rw [life] at present
    by_cases same : other = handle
    · exact ⟨request, List.mem_append_right _ (List.mem_singleton.mpr (by rw [same]))⟩
    · rw [Function.update_of_ne same] at present
      obtain ⟨earlier, inside⟩ := honest.made other present
      exact ⟨earlier, List.mem_append_left _ inside⟩
  · intro earlier other inside
    rw [life, begun]
    obtain old | new := List.mem_append.mp inside
    · have same : other ≠ handle := by
        rintro rfl
        exact (honest.reported earlier other old).present fresh
      rw [Function.update_of_ne same, Function.update_of_ne same]
      exact honest.reported earlier other old
    · cases List.mem_singleton.mp new
      rw [Function.update_self, Function.update_self]
      refine ⟨rfl, ?_⟩
      rw [← List.take_append_drop (request + 1) s.sent, own_append, List.append_eq_nil_iff] at none_
      exact none_.2

theorem settle_rest (handle : Nat) (answer : Answer) :
    (s.settle handle answer).sent = s.sent ∧ (s.settle handle answer).created = s.created ∧
      (s.settle handle answer).life = s.life ∧ (s.settle handle answer).begun = s.begun := by
  unfold System.settle
  split <;> exact ⟨rfl, rfl, rfl, rfl⟩

theorem Honest.same (honest : Honest s) (asked : Asked s)
    (rest : t.sent = s.sent ∧ t.created = s.created ∧ t.life = s.life ∧ t.begun = s.begun) :
    Honest t :=
  honest.quiet asked [] (by rw [rest.1, List.append_nil]) rest.2.1 rest.2.2.1 rest.2.2.2
    fun _ => rfl

theorem Honest.dispatch (honest : Honest s) (asked : Asked s) (request source : Nat)
    (inst : Option Nat) (fresh : ∀ handle ∈ inst, s.life handle = .absent) (note : Note) :
    Honest (s.dispatch self request source inst note) := by
  have failed : Honest (s.commandError source) :=
    honest.same asked (settle_rest source .error)
  have ready : Honest (s.launchOk source) := honest.same asked (settle_rest source _)
  cases note with
  | launch service param =>
    cases inst with
    | none => exact honest.same asked ⟨rfl, rfl, rfl, rfl⟩
    | some handle => exact honest.launched request handle service param (fresh handle rfl)
  | launchOk => exact ready
  | error => exact failed
  | remove handle kill =>
    exact honest.same asked (settle_rest (s := s.setService handle none) handle _)
  | kill handle =>
    obtain ⟨unknown, made, reported⟩ :=
      honest.retire asked self handle [(self, .remove handle true)] (.inr rfl)
    exact ⟨unknown, made, reported⟩
  | text cmd =>
    unfold System.dispatch
    dsimp only
    split
    · exact ready
    split
    · exact failed
    · exact honest

theorem Honest.becomes (honest : Honest s) (asked : Asked s) {handle : Nat}
    (more : List (Nat × Note)) (life : Life) (begun : Nat → Bool) (known : s.life handle ≠ .absent)
    (others : ∀ other, other ≠ handle → begun other = s.begun other ∧ own other more = [])
    (said : ∀ said, Reported handle (s.begun handle) said (s.life handle) →
      Reported handle (begun handle) (said ++ own handle more) life) :
    Honest { (s.send more).become handle life with begun } := by
  refine honest.moves asked handle more ⟨rfl, rfl, known, ?_, ?_⟩
  · exact fun other same =>
      ⟨Function.update_of_ne same _ _, (others other same).1, (others other same).2⟩
  · intro before reported
    change Reported handle (begun handle) _ (Function.update s.life handle life handle)
    rw [Function.update_self]
    exact said before reported

theorem own_self (handle : Nat) (note : Note) (found : Answer)
    (said : ownVerdict handle (handle, note) = some found) : own handle [(handle, note)] = [found] := by
  rw [own, List.filterMap_cons_some said, List.filterMap_nil]

theorem own_other {handle other : Nat} (same : other ≠ handle) (notes : List Note)
    (about : ∀ note ∈ notes, note = .launchOk ∨ note = .error ∨ note = .text "ERROR" ∨
      note = .remove handle false) :
    own other (notes.map fun note => (handle, note)) = [] := by
  have apart : handle ≠ other := Ne.symm same
  rw [own, List.filterMap_eq_nil_iff]
  intro note inside
  obtain ⟨given, member, rfl⟩ := List.mem_map.mp inside
  obtain rfl | rfl | rfl | rfl := about given member
  all_goals simp [ownVerdict, verdictOn, verdict, apart]

theorem honest_step {action : Action} (honest : Honest s) (asked : Asked s)
    (fresh : Fresh s action) (taken : step self s action = some t) : Honest t := by
  have nothing : s.send [] = s := by rw [System.send, List.append_nil]
  have known {handle : Nat} {life : Life} (is : s.life handle = life) (made : life ≠ .absent) :
      s.life handle ≠ .absent := is ▸ made
  cases step_taken self taken with
  | @newservice source service param =>
    exact honest.quiet asked [(source, .launch service param)] rfl rfl rfl rfl fun _ => rfl
  | @askKill source handle =>
    exact honest.quiet asked [(source, .kill handle)] rfl rfl rfl rfl fun _ => rfl
  | deliver here free =>
    have same : Honest { s with read := s.read + 1 } := ⟨honest.unknown, honest.made, honest.reported⟩
    exact same.dispatch asked s.read _ _ fresh _
  | starts loading =>
    have moved := honest.becomes asked [] .starting s.begun (known loading Life.noConfusion)
      (fun _ _ => ⟨rfl, rfl⟩) (by
        intro said reported
        rw [loading] at reported
        exact ⟨reported.1, by rw [reported.2]; rfl⟩)
    rw [nothing] at moved
    exact moved
  | silent loading =>
    have moved := honest.becomes asked [] .silent s.begun (known loading Life.noConfusion)
      (fun _ _ => ⟨rfl, rfl⟩) (by
        intro said reported
        rw [loading] at reported
        exact ⟨reported.1, by rw [reported.2]; rfl⟩)
    rw [nothing] at moved
    exact moved
  | @failed handle loading =>
    refine honest.becomes asked _ _ s.begun (known loading Life.noConfusion)
      (fun other same => ⟨rfl, own_other same [.text "ERROR"] (by simp)⟩) ?_
    intro said reported
    rw [loading] at reported
    rw [own_self handle _ .error (by simp [ownVerdict, verdictOn, verdict]), reported.2]
    exact .inr ⟨reported.1, .inr (.inl rfl)⟩
  | @started handle starting =>
    refine honest.becomes asked _ _ _ (known starting Life.noConfusion) (fun other same =>
      ⟨Function.update_of_ne same _ _, own_other same [.launchOk] (by simp)⟩) ?_
    intro said reported
    rw [starting] at reported
    rw [own_self handle _ (.ok (some handle)) (by simp [ownVerdict, verdictOn, verdict]),
      reported.2, Function.update_self]
    exact ⟨rfl, rfl⟩
  | @raised handle starting =>
    refine honest.becomes asked _ _ s.begun (known starting Life.noConfusion)
      (fun other same => ⟨rfl, own_other same [.error, .remove handle false] (by simp)⟩) ?_
    intro said reported
    rw [starting] at reported
    have both : own handle [(handle, .error), (handle, .remove handle false)] =
        [.error, .ok none] := by
      simp [own, ownVerdict, verdictOn, verdict]
    rw [both, reported.2]
    exact .inr ⟨reported.1, .inr (.inr (.inl rfl))⟩
  | @exit handle running =>
    have present : s.life handle ≠ .absent := by
      obtain life | life := running
      · exact known life Life.noConfusion
      · exact known life Life.noConfusion
    refine honest.becomes asked _ _ s.begun present
      (fun other same => ⟨rfl, own_other same [.remove handle false] (by simp)⟩) ?_
    intro said reported
    rw [own_self handle _ (.ok none) (by simp [ownVerdict, verdictOn, verdict])]
    obtain life | life := running
    · rw [life] at reported
      rw [reported.2]
      exact .inr ⟨reported.1, .inr (.inr (.inr rfl))⟩
    · rw [life] at reported
      rw [reported.2]
      exact .inl ⟨reported.1, .inr rfl⟩
  | @kill source handle => exact honest.retire asked source handle _ (.inr rfl)
  | @killByName handle =>
    have gone := honest.retire asked 0 handle [] (.inl rfl)
    rw [nothing] at gone
    exact gone

theorem honest_init : Honest System.init where
  unknown := fun _ _ => rfl
  made := fun _ present => absurd rfl present
  reported := fun _ _ inside => absurd inside List.not_mem_nil

theorem Reported.first {handle : Nat} {begun : Bool} {answer : Answer} {rest : List Answer}
    {life : Life} (reported : Reported handle begun (answer :: rest) life) :
    (begun = true ∧ answer = .ok (some handle)) ∨
      (begun = false ∧ life = .retired ∧ (answer = .error ∨ answer = .ok none)) := by
  cases life with
  | absent => exact reported.elim
  | loading | starting | silent => cases reported.2
  | started =>
    obtain ⟨begun, said⟩ := reported
    exact .inl ⟨begun, (List.cons.inj said).1⟩
  | retired =>
    obtain ⟨begun, said | said⟩ | ⟨begun, said | said | said | said⟩ := reported
    · exact .inl ⟨begun, (List.cons.inj said).1⟩
    · exact .inl ⟨begun, (List.cons.inj said).1⟩
    · cases said
    · exact .inr ⟨begun, rfl, .inl (List.cons.inj said).1⟩
    · exact .inr ⟨begun, rfl, .inl (List.cons.inj said).1⟩
    · exact .inr ⟨begun, rfl, .inr (List.cons.inj said).1⟩

theorem ownVerdict_some {handle : Nat} {note : Nat × Note} {answer : Answer}
    (said : verdictOn handle note = some answer) :
    (∃ source, note = (source, .remove handle true) ∧ answer = .error) ∨
      ownVerdict handle note = some answer := by
  obtain ⟨source, message⟩ := note
  cases message with
  | remove about kill =>
    cases kill with
    | true =>
      simp only [verdictOn, verdict, Option.bind_some, if_true] at said
      split at said
      · rename_i same
        cases said
        exact .inl ⟨source, by rw [same], rfl⟩
      · cases said
    | false => exact .inr said
  | launch service param => exact .inr said
  | launchOk => exact .inr said
  | error => exact .inr said
  | kill about => exact .inr said
  | text cmd => exact .inr said

theorem ownVerdict_none {handle : Nat} {note : Nat × Note} (said : verdictOn handle note = none) :
    ownVerdict handle note = none := by
  unfold ownVerdict
  split
  · rfl
  · exact said

theorem decided_first {request handle : Nat} {answer : Answer}
    (decided : s.decided request handle = some answer) :
    ((∃ source, (source, .remove handle true) ∈ s.sent) ∧ answer = .error) ∨
      ∃ rest, own handle (s.sent.drop (request + 1)) = answer :: rest := by
  obtain ⟨before, note, after, parts, said, silent⟩ := List.findSome?_eq_some_iff.mp decided
  obtain ⟨tail, whole⟩ : ∃ tail, s.sent.drop (request + 1) = before ++ note :: tail := by
    have cut := List.take_append_drop (s.read - (request + 1)) (s.sent.drop (request + 1))
    rw [← List.drop_take] at cut
    rw [System.since] at parts
    rw [parts, List.append_assoc, List.cons_append] at cut
    exact ⟨_, cut.symm⟩
  obtain ⟨source, rfl, error⟩ | own_ := ownVerdict_some said
  · refine .inl ⟨⟨source, ?_⟩, error⟩
    refine List.mem_of_mem_drop (i := request + 1) ?_
    rw [whole]
    exact List.mem_append_right _ List.mem_cons_self
  · refine .inr ⟨own handle tail, ?_⟩
    have nothing : own handle before = [] := by
      rw [own, List.filterMap_eq_nil_iff]
      exact fun earlier inside => ownVerdict_none (silent earlier inside)
    rw [whole, own_append, nothing, List.nil_append]
    exact List.filterMap_cons_some own_

def Notified (s : System) (action : Action) : Prop :=
  Fresh s action ∧ ∀ handle, action ≠ .killByName handle

def Noticed (s : System) : Prop :=
  ∀ request handle, (request, handle) ∈ s.created → s.life handle = .retired →
    ∃ note ∈ s.sent.drop (request + 1), verdictOn handle note ≠ none

theorem Noticed.grows (noticed : Noticed s) (asked : Asked s) (more : List (Nat × Note))
    (sent : t.sent = s.sent ++ more) (created : t.created = s.created)
    (life : ∀ handle, t.life handle = .retired →
      s.life handle = .retired ∨ ∃ note ∈ more, verdictOn handle note ≠ none) : Noticed t := by
  intro request handle inside retired
  rw [created] at inside
  have before := asked request handle inside
  rw [sent, List.drop_append_of_le_length (by omega)]
  obtain old | ⟨note, new, about⟩ := life handle retired
  · obtain ⟨note, earlier, about⟩ := noticed request handle inside old
    exact ⟨note, List.mem_append_left _ earlier, about⟩
  · exact ⟨note, List.mem_append_right _ new, about⟩

theorem Noticed.same (noticed : Noticed s) (asked : Asked s)
    (rest : t.sent = s.sent ∧ t.created = s.created ∧ t.life = s.life ∧ t.begun = s.begun) :
    Noticed t :=
  noticed.grows asked [] (by rw [rest.1, List.append_nil]) rest.2.1 fun _ retired =>
    .inl (by rwa [← rest.2.2.1])

theorem Noticed.becomes (noticed : Noticed s) (asked : Asked s) (handle : Nat) (life : Life)
    (more : List (Nat × Note)) (begun : Nat → Bool)
    (why : life = .retired → ∃ note ∈ more, verdictOn handle note ≠ none) :
    Noticed { (s.send more).become handle life with begun } := by
  refine noticed.grows asked more rfl rfl ?_
  intro other retired
  change Function.update s.life handle life other = .retired at retired
  by_cases same : other = handle
  · rw [same, Function.update_self] at retired
    rw [same]
    exact .inr (why retired)
  · rw [Function.update_of_ne same] at retired
    exact .inl retired

theorem Noticed.kill (noticed : Noticed s) (asked : Asked s) (source handle : Nat) :
    Noticed (s.kill source handle) := by
  unfold System.kill System.retire
  split
  · exact noticed.grows asked [(source, .remove handle true)] rfl rfl
      fun _ retired => .inl retired
  · exact noticed.becomes asked handle .retired _ s.begun fun _ =>
      ⟨_, List.mem_singleton_self _, by simp [verdictOn, verdict]⟩

theorem Noticed.launched (noticed : Noticed s) (request handle : Nat) (service param : List UInt8) :
    Noticed (s.launchService request service param (some handle)) := by
  intro earlier other inside retired
  change Function.update s.life handle .loading other = .retired at retired
  have same : other ≠ handle := by
    rintro rfl
    rw [Function.update_self] at retired
    cases retired
  rw [Function.update_of_ne same] at retired
  obtain old | new := List.mem_append.mp inside
  · exact noticed earlier other old retired
  · cases List.mem_singleton.mp new
    exact absurd rfl same

theorem Noticed.dispatch (noticed : Noticed s) (asked : Asked s) (request source : Nat)
    (inst : Option Nat) (note : Note) :
    Noticed (s.dispatch self request source inst note) := by
  have failed : Noticed (s.commandError source) :=
    noticed.same asked (settle_rest source .error)
  have ready : Noticed (s.launchOk source) := noticed.same asked (settle_rest source _)
  cases note with
  | launch service param =>
    cases inst with
    | none => exact noticed.same asked ⟨rfl, rfl, rfl, rfl⟩
    | some handle => exact noticed.launched request handle service param
  | launchOk => exact ready
  | error => exact failed
  | remove handle kill =>
    exact noticed.same asked (settle_rest (s := s.setService handle none) handle _)
  | kill handle => exact noticed.kill asked self handle
  | text cmd =>
    unfold System.dispatch
    dsimp only
    split
    · exact ready
    split
    · exact failed
    · exact noticed

theorem noticed_step {action : Action} (noticed : Noticed s) (asked : Asked s)
    (notified : Notified s action) (taken : step self s action = some t) : Noticed t := by
  have moves (handle : Nat) (life : Life) (running : life ≠ .retired) :
      Noticed (s.become handle life) := by
    have moved := noticed.becomes asked handle life [] s.begun fun retired => absurd retired running
    have nothing : s.send [] = s := by rw [System.send, List.append_nil]
    rw [nothing] at moved
    exact moved
  cases step_taken self taken with
  | @newservice source service param =>
    exact noticed.grows asked [(source, .launch service param)] rfl rfl
      fun _ retired => .inl retired
  | @askKill source handle =>
    exact noticed.grows asked [(source, .kill handle)] rfl rfl
      fun _ retired => .inl retired
  | deliver here free =>
    have same : Noticed { s with read := s.read + 1 } := noticed
    exact same.dispatch asked s.read _ _ _
  | starts loading => exact moves _ .starting Life.noConfusion
  | silent loading => exact moves _ .silent Life.noConfusion
  | @failed handle loading =>
    exact noticed.becomes asked handle .retired _ s.begun fun _ =>
      ⟨_, List.mem_singleton_self _, by simp [verdictOn, verdict]⟩
  | @started handle starting =>
    exact noticed.becomes asked handle .started _ _ fun retired => by cases retired
  | @raised handle starting =>
    exact noticed.becomes asked handle .retired _ s.begun fun _ =>
      ⟨(handle, .error), List.mem_cons_self, by simp [verdictOn, verdict]⟩
  | @exit handle running =>
    exact noticed.becomes asked handle .retired _ s.begun fun _ =>
      ⟨_, List.mem_singleton_self _, by simp [verdictOn, verdict]⟩
  | @kill source handle => exact noticed.kill asked source handle
  | @killByName handle => exact absurd rfl (notified.2 handle)

theorem launch_answers (self : Nat) (actions : List Action) (s : System)
    (fresh : Along (step self) Fresh System.init actions)
    (reached : run (step self) System.init actions = some s) :
    (∀ request handle, (request, handle) ∈ s.created →
      s.answersOf request = (s.decided request handle).toList ∧
        (s.instances handle = some request ↔ s.decided request handle = none)) ∧
    (∀ request, request < s.read →
      (∃ source service param, s.sent[request]? = some (source, .launch service param)) →
        (∀ handle, (request, handle) ∉ s.created) → s.answersOf request = [.error]) ∧
    ∀ request, s.read ≤ request → s.answersOf request = [] := by
  have answered : Answered s :=
    (Path.of_run actions (.refl System.init) fresh reached).invariant Answered
      (fun _ _ _ held allow taken => answered_step held allow taken) answered_init
  refine ⟨?_, answered.refused, answered.unasked⟩
  intro request handle inside
  obtain ⟨already, waits⟩ := answered.settled request handle inside
  refine ⟨already, ?_⟩
  rw [waits]
  cases s.decided request handle <;> simp

instance (s : System) (action : Action) : Decidable (Fresh s action) :=
  match action with
  | .deliver inst => inferInstanceAs (Decidable (∀ handle ∈ inst, s.life handle = .absent))
  | .newservice _ _ _ | .askKill _ _ | .load _ _ | .start _ _ | .exit _ | .kill _ _
  | .killByName _ => .isTrue trivial

instance (s : System) (action : Action) : Decidable (Notified s action) :=
  match action with
  | .killByName handle => .isFalse fun notified => notified.2 handle rfl
  | .deliver inst => decidable_of_iff (Fresh s (.deliver inst)) ⟨fun fresh => ⟨fresh, by simp⟩, And.left⟩
  | .newservice _ _ _ | .askKill _ _ | .load _ _ | .start _ _ | .exit _ | .kill _ _ =>
    .isTrue ⟨trivial, by simp⟩

def twoLaunches : List Action :=
  [.newservice 7 [115] [], .deliver (some 10), .load 10 .starts, .newservice 7 [115] [],
    .deliver (some 11), .start 10 true, .kill 8 11, .deliver none, .deliver none]

theorem twoLaunches_answered : ∃ s, run (step 1) System.init twoLaunches = some s ∧
    s.created = [(0, 10), (1, 11)] ∧ s.answersOf 0 = [.ok (some 10)] ∧ s.answersOf 1 = [.error] ∧
    s.instances 10 ≠ some 0 :=
  have answers := launch_answers 1 twoLaunches _ (by decide) rfl
  ⟨_, rfl, rfl, (answers.1 0 10 (by decide)).1, (answers.1 1 11 (by decide)).1, fun waits =>
    Option.some_ne_none _ ((answers.1 0 10 (by decide)).2.mp waits)⟩

def spoken (handle : Nat) : Action → List Answer
  | .load about .failed => if about = handle then [.error] else []
  | .start about true => if about = handle then [.ok (some handle)] else []
  | .start about false => if about = handle then [.error, .ok none] else []
  | .exit about => if about = handle then [.ok none] else []
  | _ => []

-- A note that says who is killed, and why it was sent.
structure Sends (s t : System) (action : Action) (more : List (Nat × Note)) : Prop where
  sent : t.sent = s.sent ++ more
  said : ∀ handle, own handle more = spoken handle action
  killed : ∀ source handle, (source, .remove handle true) ∈ more →
    action = .kill source handle ∨ ∃ asker, (asker, .kill handle) ∈ s.sent
  asked : ∀ asker handle, (asker, .kill handle) ∈ more → action = .askKill asker handle
  created : ∀ request handle, (request, handle) ∈ t.created →
    (request, handle) ∈ s.created ∨ action = .deliver (some handle)

theorem Sends.nothing {action : Action} (sent : t.sent = s.sent) (created : t.created = s.created)
    (silent : ∀ handle, spoken handle action = []) : Sends s t action [] where
  sent := by rw [sent, List.append_nil]
  said := fun handle => (silent handle).symm
  killed := fun _ _ inside => absurd inside List.not_mem_nil
  asked := fun _ _ inside => absurd inside List.not_mem_nil
  created := fun _ _ inside => .inl (created ▸ inside)

theorem Sends.of_notes {action : Action} (handle : Nat) (notes : List Note)
    (sent : t.sent = s.sent ++ notes.map fun note => (handle, note)) (created : t.created = s.created)
    (about : ∀ note ∈ notes, note = .launchOk ∨ note = .error ∨ note = .text "ERROR" ∨
      note = .remove handle false)
    (said : own handle (notes.map fun note => (handle, note)) = spoken handle action)
    (others : ∀ other, other ≠ handle → spoken other action = []) :
    Sends s t action (notes.map fun note => (handle, note)) where
  sent := sent
  said := by
    intro other
    by_cases same : other = handle
    · rw [same, said]
    · rw [own_other same notes about, others other same]
  killed := by
    intro source other inside
    obtain ⟨note, member, is⟩ := List.mem_map.mp inside
    obtain rfl | rfl | rfl | rfl := about note member <;> simp at is
  asked := by
    intro asker other inside
    obtain ⟨note, member, is⟩ := List.mem_map.mp inside
    obtain rfl | rfl | rfl | rfl := about note member <;> simp at is
  created := fun _ _ inside => .inl (created ▸ inside)

theorem retire_rest (s : System) (handle : Nat) :
    (s.retire handle).sent = s.sent ∧ (s.retire handle).created = s.created := by
  unfold System.retire
  split <;> exact ⟨rfl, rfl⟩

theorem dispatch_sends (request source : Nat) (inst : Option Nat) (note : Note)
    (inside : (source, note) ∈ s.sent) :
    ∃ more, Sends s (s.dispatch self request source inst note) (.deliver inst) more := by
  have settles (handle : Nat) (answer : Answer) :
      Sends s (s.settle handle answer) (.deliver inst) [] :=
    .nothing (settle_rest handle answer).1 (settle_rest handle answer).2.1 fun _ => rfl
  have failed : ∃ more, Sends s (s.commandError source) (.deliver inst) more :=
    ⟨[], .nothing (settle_rest source .error).1 (settle_rest source .error).2.1 fun _ => rfl⟩
  cases note with
  | launch service param =>
    cases inst with
    | none => exact ⟨[], .nothing rfl rfl fun _ => rfl⟩
    | some handle =>
      refine ⟨[], by rw [List.append_nil]; rfl, fun _ => rfl, by simp, by simp, ?_⟩
      intro earlier other there
      obtain old | made := List.mem_append.mp there
      · exact .inl old
      · cases List.mem_singleton.mp made
        exact .inr rfl
  | launchOk => exact ⟨[], settles source _⟩
  | error => exact failed
  | remove handle kill =>
    obtain ⟨sent, created, -, -⟩ := settle_rest (s := s.setService handle none) handle
      (if kill then .error else .ok none)
    exact ⟨[], .nothing sent created fun _ => rfl⟩
  | kill handle =>
    obtain ⟨sent, created⟩ := retire_rest (s.send [(self, .remove handle true)]) handle
    refine ⟨[(self, .remove handle true)], sent, fun _ => rfl, ?_, by simp, ?_⟩
    · intro killer other there
      simp only [List.mem_singleton, Prod.mk.injEq, Note.remove.injEq, and_true] at there
      rw [there.2]
      exact .inr ⟨source, inside⟩
    · intro earlier other there
      refine .inl ?_
      rw [System.dispatch, System.kill] at there
      exact created ▸ there
  | text cmd =>
    unfold System.dispatch
    dsimp only
    split
    · exact ⟨[], settles source _⟩
    split
    · exact failed
    · exact ⟨[], .nothing rfl rfl fun _ => rfl⟩

theorem step_sends {action : Action} (taken : step self s action = some t) :
    ∃ more, Sends s t action more := by
  have other {handle about : Nat} (same : handle ≠ about) : ¬about = handle := Ne.symm same
  cases step_taken self taken with
  | newservice => exact ⟨_, rfl, fun _ => rfl, by simp, by simp, fun _ _ => .inl⟩
  | askKill =>
    refine ⟨_, rfl, fun _ => rfl, by simp, ?_, fun _ _ => .inl⟩
    intro asker other inside
    simp only [List.mem_singleton, Prod.mk.injEq, Note.kill.injEq] at inside
    rw [inside.1, inside.2]
  | @deliver inst source note here free =>
    have inside : (source, note) ∈ ({ s with read := s.read + 1 } : System).sent :=
      List.mem_of_getElem? here
    obtain ⟨more, sends⟩ := dispatch_sends s.read source inst note inside
    exact ⟨more, sends.sent, sends.said, sends.killed, sends.asked, sends.created⟩
  | starts loading => exact ⟨[], .nothing rfl rfl fun _ => rfl⟩
  | silent loading => exact ⟨[], .nothing rfl rfl fun _ => rfl⟩
  | @failed handle loading =>
    refine ⟨_, .of_notes handle [.text "ERROR"] rfl rfl (by simp) ?_ fun _ same => if_neg (other same)⟩
    exact (own_self handle _ .error (by simp [ownVerdict, verdictOn, verdict])).trans
      (if_pos rfl).symm
  | @started handle starting =>
    refine ⟨_, .of_notes handle [.launchOk] rfl rfl (by simp) ?_ fun _ same => if_neg (other same)⟩
    exact (own_self handle _ (.ok (some handle)) (by simp [ownVerdict, verdictOn, verdict])).trans
      (if_pos rfl).symm
  | @raised handle starting =>
    refine ⟨_, .of_notes handle [.error, .remove handle false] rfl rfl (by simp) ?_
      fun _ same => if_neg (other same)⟩
    refine Eq.trans ?_ (if_pos rfl).symm
    simp [own, ownVerdict, verdictOn, verdict]
  | @exit handle running =>
    refine ⟨_, .of_notes handle [.remove handle false] rfl rfl (by simp) ?_
      fun _ same => if_neg (other same)⟩
    exact (own_self handle _ (.ok none) (by simp [ownVerdict, verdictOn, verdict])).trans
      (if_pos rfl).symm
  | @kill source handle =>
    obtain ⟨sent, created⟩ := retire_rest (s.send [(source, .remove handle true)]) handle
    refine ⟨_, sent, fun _ => rfl, ?_, by simp, fun _ _ inside => .inl (created ▸ inside)⟩
    intro killer about inside
    simp only [List.mem_singleton, Prod.mk.injEq, Note.remove.injEq, and_true] at inside
    rw [inside.1, inside.2]
    exact .inl rfl
  | @killByName handle =>
    obtain ⟨sent, created⟩ := retire_rest s handle
    exact ⟨[], .nothing sent created fun _ => rfl⟩

def Early (s : System) : Prop := ∀ request handle, (request, handle) ∈ s.created →
  own handle (s.sent.take (request + 1)) = []

def Killed (actions : List Action) (handle : Nat) : Prop :=
  (∃ source, .kill source handle ∈ actions) ∨ ∃ asker, .askKill asker handle ∈ actions

theorem Early.step {action : Action} (early : Early s) (honest : Honest s) (asked : Asked s)
    (fresh : Fresh s action) (taken : step self s action = some t) : Early t := by
  obtain ⟨more, sends⟩ := step_sends taken
  intro request handle inside
  obtain old | made := sends.created request handle inside
  · have before := asked request handle old
    rw [sends.sent, List.take_append_of_le_length (by omega)]
    exact early request handle old
  · subst made
    have silent : own handle t.sent = [] := by
      rw [sends.sent, own_append, honest.unknown handle (fresh handle rfl), sends.said]
      rfl
    rw [← List.take_append_drop (request + 1) t.sent, own_append, List.append_eq_nil_iff] at silent
    exact silent.1

theorem honest_run {self : Nat} {actions : List Action}
    (fresh : Along (step self) Fresh System.init actions)
    (reached : run (step self) System.init actions = some s) : Answered s ∧ Honest s ∧ Early s :=
  (Path.of_run actions (.refl System.init) fresh reached).invariant
    (fun s => Answered s ∧ Honest s ∧ Early s)
    (fun _ _ _ held allow taken => ⟨answered_step held.1 allow taken,
      honest_step held.2.1 held.1.asked allow taken,
      held.2.2.step held.2.1 held.1.asked allow taken⟩)
    ⟨answered_init, honest_init, fun _ _ inside => absurd inside List.not_mem_nil⟩

structure Because (s t : System) (actions : List Action) : Prop where
  said : ∀ handle, own handle t.sent = own handle s.sent ++ actions.flatMap (spoken handle)
  asked : ∀ asker handle, (asker, .kill handle) ∈ t.sent →
    (asker, .kill handle) ∈ s.sent ∨ .askKill asker handle ∈ actions
  killed : ∀ source handle, (source, .remove handle true) ∈ t.sent →
    (source, .remove handle true) ∈ s.sent ∨ (∃ asker, (asker, .kill handle) ∈ s.sent) ∨
      Killed actions handle

theorem Killed.later {actions : List Action} {handle : Nat} (action : Action)
    (killed : Killed actions handle) : Killed (action :: actions) handle :=
  killed.imp (fun ⟨source, inside⟩ => ⟨source, List.mem_cons_of_mem _ inside⟩)
    fun ⟨asker, inside⟩ => ⟨asker, List.mem_cons_of_mem _ inside⟩

theorem run_because (actions : List Action) (reached : run (step self) s actions = some t) :
    Because s t actions := by
  induction actions generalizing s with
  | nil =>
    obtain rfl := Option.some.inj reached
    exact ⟨fun _ => (List.append_nil _).symm, fun _ _ => .inl, fun _ _ => .inl⟩
  | cons action rest ih =>
    simp only [run] at reached
    split at reached
    · rename_i next taken
      obtain ⟨more, sends⟩ := step_sends taken
      have later := ih reached
      constructor
      · intro handle
        rw [later.said, sends.sent, own_append, sends.said, List.flatMap_cons, List.append_assoc]
      · intro asker handle inside
        obtain before | after := later.asked asker handle inside
        · rw [sends.sent] at before
          obtain old | new := List.mem_append.mp before
          · exact .inl old
          · exact .inr (sends.asked asker handle new ▸ List.mem_cons_self ..)
        · exact .inr (List.mem_cons_of_mem _ after)
      · intro source handle inside
        obtain before | ⟨asker, before⟩ | after := later.killed source handle inside
        · rw [sends.sent] at before
          obtain old | new := List.mem_append.mp before
          · exact .inl old
          · obtain rfl | wanted := sends.killed source handle new
            · exact .inr (.inr (.inl ⟨source, List.mem_cons_self ..⟩))
            · exact .inr (.inl wanted)
        · rw [sends.sent] at before
          obtain old | new := List.mem_append.mp before
          · exact .inr (.inl ⟨asker, old⟩)
          · exact .inr (.inr (.inr ⟨asker, sends.asked asker handle new ▸ List.mem_cons_self ..⟩))
        · exact .inr (.inr (after.later action))
    · contradiction

theorem spoken_first {handle : Nat} {answer : Answer} {rest : List Answer} {actions : List Action}
    (said : actions.flatMap (spoken handle) = answer :: rest) :
    (answer = .error ∧ (.load handle .failed ∈ actions ∨ .start handle false ∈ actions)) ∨
      (answer = .ok (some handle) ∧ .start handle true ∈ actions) ∨
      (answer = .ok none ∧ .exit handle ∈ actions) := by
  induction actions with
  | nil => cases said
  | cons action actions ih =>
    rw [List.flatMap_cons] at said
    cases here : spoken handle action with
    | nil =>
      rw [here, List.nil_append] at said
      obtain ⟨is, failed | failed⟩ | ⟨is, started⟩ | ⟨is, left⟩ := ih said
      · exact .inl ⟨is, .inl (List.mem_cons_of_mem _ failed)⟩
      · exact .inl ⟨is, .inr (List.mem_cons_of_mem _ failed)⟩
      · exact .inr (.inl ⟨is, List.mem_cons_of_mem _ started⟩)
      · exact .inr (.inr ⟨is, List.mem_cons_of_mem _ left⟩)
    | cons first more =>
      rw [here, List.cons_append] at said
      obtain rfl := (List.cons.inj said).1
      unfold spoken at here
      split at here
      all_goals first
        | (split_ifs at here with same
           obtain rfl := same
           cases here
           simp)
        | cases here

def oneFails : List Action :=
  [.newservice 7 [115] [], .deliver (some 10), .newservice 7 [115] [], .deliver (some 11),
    .load 11 .failed, .deliver none]

end Pskynet.Launcher
