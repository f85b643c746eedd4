import Pskynet.Launcher.Service

set_option autoImplicit false

namespace Pskynet.Launcher

namespace System

variable (s : System)

def since (request : Nat) : List (Nat × Note) := (s.sent.take s.read).drop (request + 1)

def answersOf (request : Nat) : List Answer :=
  s.answers.filterMap fun given => if given.1 = request then some given.2 else none

def decided (request handle : Nat) : Option Answer := (s.since request).findSome? (verdictOn handle)

end System

def leaves (instances : Nat → Option Nat) : Option (Nat × Answer) → Nat → Option Nat
  | some (handle, _) => Function.update instances handle none
  | none => instances

def gives (instances : Nat → Option Nat) : Option (Nat × Answer) → List (Nat × Answer)
  | some (handle, answer) => (instances handle).toList.map fun request => (request, answer)
  | none => []

structure Told (s t : System) (said : Option (Nat × Answer)) : Prop where
  created : t.created = s.created
  present : ∀ handle, s.life handle ≠ .absent → t.life handle ≠ .absent
  instances : t.instances = leaves s.instances said
  answers : t.answers = s.answers ++ gives s.instances said

variable {s t : System}

theorem told_settle (handle : Nat) (answer : Answer) :
    Told s (s.settle handle answer) (some (handle, answer)) := by
  unfold System.settle
  cases waiting : s.instances handle with
  | none =>
    refine ⟨rfl, fun _ known => known, ?_, ?_⟩
    · exact (Function.update_eq_self_iff.mpr waiting.symm).symm
    · simp [gives, waiting]
  | some request =>
    refine ⟨rfl, fun _ known => known, rfl, ?_⟩
    simp [gives, waiting, System.respond]

theorem present_retire (handle other : Nat) (known : s.life other ≠ .absent) :
    (s.retire handle).life other ≠ .absent := by
  unfold System.retire
  split
  · exact known
  · by_cases same : other = handle
    · simp [System.become, same]
    · simp [System.become, same, known]

theorem Told.of_settle {u : System} {handle : Nat} {answer : Answer} (before : System)
    (same : u = before.settle handle answer) (instances : before.instances = s.instances)
    (answers : before.answers = s.answers) (created : before.created = s.created)
    (life : before.life = s.life) (ends : t.instances = u.instances)
    (answered : t.answers = u.answers) (counted : t.created = u.created) (lives : t.life = u.life) :
    Told s t (some (handle, answer)) := by
  have told := told_settle (s := before) handle answer
  rw [← same] at told
  refine ⟨?_, ?_, ?_, ?_⟩
  · rw [counted, told.created, created]
  · intro other known
    rw [lives]
    exact told.present other (by rwa [life])
  · rw [ends, told.instances, instances]
  · rw [answered, told.answers, answers, instances]

theorem told_dispatch (self request source : Nat) (inst : Option Nat) (note : Note)
    (other : ∀ service param, note ≠ .launch service param) :
    Told s (s.dispatch self request source inst note) (verdict source note) := by
  have failed : Told s (s.commandError source) (some (source, .error)) :=
    .of_settle s rfl rfl rfl rfl rfl rfl rfl rfl rfl
  cases note with
  | launch service param => exact absurd rfl (other service param)
  | launchOk => exact told_settle source _
  | error => exact failed
  | remove handle kill =>
    exact .of_settle (s.setService handle none) rfl rfl rfl rfl rfl rfl rfl rfl rfl
  | kill handle =>
    refine ⟨?_, ?_, ?_, ?_⟩
    · unfold System.dispatch System.kill System.retire
      dsimp only
      split <;> rfl
    · intro found known
      exact present_retire handle found known
    · unfold System.dispatch System.kill System.retire
      dsimp only
      split <;> rfl
    · rw [verdict, gives, List.append_nil]
      unfold System.dispatch System.kill System.retire
      dsimp only
      split <;> rfl
  | text cmd =>
    unfold System.dispatch verdict
    dsimp only
    split
    · exact told_settle source _
    split
    · exact failed
    · exact ⟨rfl, fun _ known => known, rfl, (List.append_nil _).symm⟩

theorem sent_dispatch (self request source : Nat) (inst : Option Nat) (note : Note) :
    ∃ more, (s.dispatch self request source inst note).sent = s.sent ++ more ∧
      (s.dispatch self request source inst note).read = s.read := by
  have settled (u : System) (handle : Nat) (answer : Answer) :
      (u.settle handle answer).sent = u.sent ∧ (u.settle handle answer).read = u.read := by
    unfold System.settle
    split <;> exact ⟨rfl, rfl⟩
  have nothing {u : System} (same : u.sent = s.sent ∧ u.read = s.read) :
      ∃ more, u.sent = s.sent ++ more ∧ u.read = s.read :=
    ⟨[], by rw [same.1, List.append_nil], same.2⟩
  cases note with
  | launch service param =>
    cases inst with
    | none => exact nothing ⟨rfl, rfl⟩
    | some inst => exact nothing ⟨rfl, rfl⟩
  | launchOk => exact nothing (settled s source _)
  | error => exact nothing (settled s source _)
  | remove handle kill => exact nothing (settled (s.setService handle none) handle _)
  | kill handle =>
    refine ⟨[(self, .remove handle true)], ?_⟩
    unfold System.dispatch System.kill System.retire
    dsimp only
    split <;> exact ⟨rfl, rfl⟩
  | text cmd =>
    unfold System.dispatch
    dsimp only
    split
    · exact nothing (settled s source _)
    split
    · exact nothing (settled s source _)
    · exact nothing ⟨rfl, rfl⟩

structure Answered (s : System) : Prop where
  taken : s.read ≤ s.sent.length
  requests : ∀ request handle, (request, handle) ∈ s.created → request < s.read
  once : ∀ request handle other, (request, handle) ∈ s.created → (request, other) ∈ s.created →
    handle = other
  present : ∀ request handle, (request, handle) ∈ s.created → s.life handle ≠ .absent
  waiting : ∀ handle request, s.instances handle = some request → (request, handle) ∈ s.created
  settled : ∀ request handle, (request, handle) ∈ s.created →
    s.answersOf request = (s.decided request handle).toList ∧
      s.instances handle = if s.decided request handle = none then some request else none
  answered : ∀ given ∈ s.answers, given.1 < s.read
  refused : ∀ request, request < s.read →
    (∃ source service param, s.sent[request]? = some (source, .launch service param)) →
      (∀ handle, (request, handle) ∉ s.created) → s.answersOf request = [.error]

theorem Answered.grows (answered : Answered s) {more : List (Nat × Note)}
    (sent : t.sent = s.sent ++ more) (read : t.read = s.read) (told : Told s t none) :
    Answered t := by
  have front : t.sent.take t.read = s.sent.take s.read := by
    rw [sent, read, List.take_append_of_le_length answered.taken]
  have same (request handle : Nat) : t.decided request handle = s.decided request handle := by
    rw [System.decided, System.decided, System.since, System.since, front]
  have given (request : Nat) : t.answersOf request = s.answersOf request := by
    rw [System.answersOf, System.answersOf, told.answers, gives, List.append_nil]
  constructor
  · rw [sent, read, List.length_append]
    exact answered.taken.trans (Nat.le_add_right _ _)
  · rw [told.created, read]
    exact answered.requests
  · rw [told.created]
    exact answered.once
  · rw [told.created]
    exact fun request handle inside =>
      told.present handle (answered.present request handle inside)
  · rw [told.created, told.instances]
    exact answered.waiting
  · intro request handle inside
    rw [told.created] at inside
    rw [given, same, told.instances]
    exact answered.settled request handle inside
  · rw [told.answers, gives, List.append_nil, read]
    exact answered.answered
  · intro request before launched unmade
    rw [read] at before
    rw [told.created] at unmade
    have inside : request < s.sent.length := before.trans_le answered.taken
    rw [sent, List.getElem?_append_left inside] at launched
    rw [given]
    exact answered.refused request before launched unmade

variable {self source : Nat} {note : Note} {more : List (Nat × Note)}

theorem since_next (answered : Answered s) (here : s.sent[s.read]? = some (source, note))
    (sent : t.sent = s.sent ++ more) (read : t.read = s.read + 1) (request : Nat)
    (before : request < s.read) : t.since request = s.since request ++ [(source, note)] := by
  have front : t.sent.take t.read = s.sent.take s.read ++ [(source, note)] := by
    obtain ⟨inside, value⟩ := List.getElem?_eq_some_iff.mp here
    rw [sent, read, List.take_append_of_le_length inside, List.take_succ_eq_append_getElem inside,
      value]
  have length : (s.sent.take s.read).length = s.read := by
    rw [List.length_take, Nat.min_eq_left answered.taken]
  rw [System.since, front, List.drop_append_of_le_length (by omega), System.since]

theorem Answered.unasked (answered : Answered s) (request : Nat) (later : s.read ≤ request) :
    s.answersOf request = [] := by
  rw [System.answersOf, List.filterMap_eq_nil_iff]
  intro given inside
  have before := answered.answered given inside
  rw [if_neg (by omega)]

theorem Answered.gives_created (answered : Answered s) (said : Option (Nat × Answer))
    (given : Nat × Answer) (inside : given ∈ gives s.instances said) :
    ∃ handle, (given.1, handle) ∈ s.created ∧ ∀ found ∈ said, found.1 = handle := by
  cases said with
  | none => cases inside
  | some found =>
    rw [gives, List.mem_map] at inside
    obtain ⟨request, waits, rfl⟩ := inside
    refine ⟨found.1, answered.waiting found.1 request (Option.mem_toList.mp waits), ?_⟩
    rintro _ ⟨⟩
    rfl

theorem Answered.verdict_sent (answered : Answered s) (here : s.sent[s.read]? = some (source, note))
    (other : ∀ service param, note ≠ .launch service param)
    (told : Told s t (verdict source note)) (sent : t.sent = s.sent ++ more)
    (read : t.read = s.read + 1) : Answered t := by
  have next (request handle : Nat) (before : request < s.read) :
      t.decided request handle =
        (s.decided request handle).or (verdictOn handle (source, note)) := by
    have last : [(source, note)].findSome? (verdictOn handle) = verdictOn handle (source, note) := by
      rw [List.findSome?_cons]
      cases verdictOn handle (source, note) <;> rfl
    rw [System.decided, since_next answered here sent read request before, List.findSome?_append,
      last, System.decided]
  have given (request : Nat) : t.answersOf request = s.answersOf request ++
      (gives s.instances (verdict source note)).filterMap fun given =>
        if given.1 = request then some given.2 else none := by
    rw [System.answersOf, told.answers, List.filterMap_append, System.answersOf]
  have unmade (request : Nat) (missing : ∀ handle, (request, handle) ∉ s.created) :
      t.answersOf request = s.answersOf request := by
    have none_ : (gives s.instances (verdict source note)).filterMap (fun given =>
        if given.1 = request then some given.2 else none) = [] := by
      rw [List.filterMap_eq_nil_iff]
      intro pair inside
      have made := answered.gives_created (verdict source note) pair inside
      refine if_neg fun same => ?_
      obtain ⟨handle, created, -⟩ := made
      rw [same] at created
      exact missing handle created
    rw [given, none_, List.append_nil]
  constructor
  · obtain ⟨inside, -⟩ := List.getElem?_eq_some_iff.mp here
    rw [sent, read, List.length_append]
    omega
  · rw [told.created, read]
    exact fun request handle inside => (answered.requests request handle inside).trans (by omega)
  · rw [told.created]
    exact answered.once
  · rw [told.created]
    exact fun request handle inside =>
      told.present handle (answered.present request handle inside)
  · rw [told.created, told.instances]
    intro handle request waits
    cases said : verdict source note with
    | none =>
      rw [said] at waits
      exact answered.waiting handle request waits
    | some found =>
      rw [said] at waits
      by_cases same : handle = found.1
      · rw [leaves, same, Function.update_self] at waits
        cases waits
      · rw [leaves, Function.update_of_ne same] at waits
        exact answered.waiting handle request waits
  · intro request handle inside
    rw [told.created] at inside
    obtain ⟨already, waits⟩ := answered.settled request handle inside
    have before := answered.requests request handle inside
    rw [next request handle before, given, already, told.instances]
    cases said : verdict source note with
    | none =>
      simp [gives, leaves, verdictOn, said, waits]
    | some found =>
      obtain ⟨about, answer⟩ := found
      by_cases same : about = handle
      · subst same
        cases decided : s.decided request about with
        | none => simp_all [gives, leaves, verdictOn]
        | some first => simp_all [gives, leaves, verdictOn]
      · have silent : verdictOn handle (source, note) = none := by simp [verdictOn, said, same]
        have none_ : (gives s.instances (some (about, answer))).filterMap (fun given =>
            if given.1 = request then some given.2 else none) = [] := by
          -- The request that is answered belongs to another service.
          rw [List.filterMap_eq_nil_iff]
          intro pair chosen
          obtain ⟨owner, created, all⟩ := answered.gives_created _ pair chosen
          refine if_neg fun equal => same ?_
          rw [equal] at created
          exact (all _ rfl).trans (answered.once request owner handle created inside)
        rw [none_, silent, Option.or_none, List.append_nil, leaves,
          Function.update_of_ne (Ne.symm same), waits]
        exact ⟨rfl, rfl⟩
  · intro pair inside
    rw [told.answers, List.mem_append] at inside
    rw [read]
    rcases inside with old | new
    · exact (answered.answered pair old).trans (by omega)
    · obtain ⟨handle, created, -⟩ := answered.gives_created _ pair new
      exact (answered.requests _ handle created).trans (by omega)
  · intro request before launched missing
    rw [told.created] at missing
    rw [unmade request missing]
    rw [read] at before
    obtain ⟨from_, service, param, asked⟩ := launched
    have inside : request < s.sent.length := by
      obtain ⟨inside, -⟩ := List.getElem?_eq_some_iff.mp here
      omega
    rw [sent, List.getElem?_append_left inside] at asked
    have earlier : request ≠ s.read := by
      rintro rfl
      rw [here] at asked
      cases asked
      exact other service param rfl
    exact answered.refused request (by omega) ⟨from_, service, param, asked⟩ missing

variable {service param : List UInt8}

theorem decided_launch (answered : Answered s)
    (here : s.sent[s.read]? = some (source, .launch service param)) (sent : t.sent = s.sent)
    (read : t.read = s.read + 1) (request handle : Nat) (before : request < s.read) :
    t.decided request handle = s.decided request handle := by
  have same : t.sent = s.sent ++ [] := by rw [sent, List.append_nil]
  rw [System.decided, since_next answered here same read request before, List.findSome?_append,
    System.decided]
  exact Option.or_none

theorem decided_fresh (sent : t.sent = s.sent) (read : t.read = s.read + 1) (handle : Nat) :
    t.decided s.read handle = none := by
  have nothing : t.since s.read = [] := by
    rw [System.since, sent, read]
    exact List.drop_eq_nil_of_le (List.length_take_le _ _)
  rw [System.decided, nothing, List.findSome?_nil]

theorem Answered.launched (answered : Answered s)
    (here : s.sent[s.read]? = some (source, .launch service param)) (handle : Nat)
    (fresh : s.life handle = .absent)
    (after : t = { s with read := s.read + 1 }.dispatch self s.read source (some handle)
      (.launch service param)) : Answered t := by
  have sent : t.sent = s.sent := by
    rw [after]
    rfl
  have read : t.read = s.read + 1 := by
    rw [after]
    rfl
  have created : t.created = s.created ++ [(s.read, handle)] := by
    rw [after]
    rfl
  have instances : t.instances = Function.update s.instances handle (some s.read) := by
    rw [after]
    rfl
  have answers : t.answers = s.answers := by
    rw [after]
    rfl
  have life : t.life = Function.update s.life handle .loading := by
    rw [after]
    rfl
  have older {request other : Nat} (inside : (request, other) ∈ s.created) : other ≠ handle := by
    rintro rfl
    exact answered.present request other inside fresh
  have given (request : Nat) : t.answersOf request = s.answersOf request := by
    rw [System.answersOf, answers, System.answersOf]
  obtain ⟨inside, -⟩ := List.getElem?_eq_some_iff.mp here
  constructor
  · rw [read, sent]
    exact inside
  · intro request other made
    rw [created, List.mem_append, List.mem_singleton, Prod.mk.injEq] at made
    rw [read]
    obtain old | ⟨rfl, -⟩ := made
    · exact (answered.requests request other old).trans (Nat.lt_succ_self _)
    · exact Nat.lt_succ_self _
  · intro request first second made also
    rw [created, List.mem_append, List.mem_singleton, Prod.mk.injEq] at made also
    obtain old | ⟨now, rfl⟩ := made
    · obtain old' | ⟨rfl, -⟩ := also
      · exact answered.once request first second old old'
      · exact absurd (answered.requests _ first old) (Nat.lt_irrefl _)
    · obtain old' | ⟨-, rfl⟩ := also
      · rw [now] at old'
        exact absurd (answered.requests _ second old') (Nat.lt_irrefl _)
      · rfl
  · intro request other made
    rw [created, List.mem_append, List.mem_singleton, Prod.mk.injEq] at made
    rw [life]
    obtain old | ⟨-, rfl⟩ := made
    · rw [Function.update_of_ne (older old)]
      exact answered.present request other old
    · rw [Function.update_self]
      exact Life.noConfusion
  · intro other request waits
    rw [instances] at waits
    rw [created, List.mem_append, List.mem_singleton, Prod.mk.injEq]
    by_cases same : other = handle
    · rw [same, Function.update_self] at waits
      exact .inr ⟨(Option.some.inj waits).symm, same⟩
    · rw [Function.update_of_ne same] at waits
      exact .inl (answered.waiting other request waits)
  · intro request other made
    rw [created, List.mem_append, List.mem_singleton, Prod.mk.injEq] at made
    rw [given, instances]
    obtain old | ⟨rfl, rfl⟩ := made
    · obtain ⟨already, waits⟩ := answered.settled request other old
      rw [decided_launch answered here sent read request other (answered.requests _ _ old),
        Function.update_of_ne (older old)]
      exact ⟨already, waits⟩
    · rw [decided_fresh sent read, answered.unasked s.read le_rfl, Function.update_self]
      exact ⟨rfl, rfl⟩
  · rw [answers, read]
    exact fun given old => (answered.answered given old).trans (Nat.lt_succ_self _)
  · intro request before asked missing
    rw [created] at missing
    have now : request ≠ s.read := by
      rintro rfl
      exact missing handle (List.mem_append_right _ (List.mem_singleton_self _))
    rw [read] at before
    rw [sent] at asked
    rw [given]
    exact answered.refused request (by omega) asked fun other old =>
      missing other (List.mem_append_left _ old)

theorem Answered.unlaunched (answered : Answered s)
    (here : s.sent[s.read]? = some (source, .launch service param))
    (after : t = { s with read := s.read + 1 }.dispatch self s.read source none
      (.launch service param)) : Answered t := by
  have sent : t.sent = s.sent := by
    rw [after]
    rfl
  have read : t.read = s.read + 1 := by
    rw [after]
    rfl
  have created : t.created = s.created := by
    rw [after]
    rfl
  have instances : t.instances = s.instances := by
    rw [after]
    rfl
  have answers : t.answers = s.answers ++ [(s.read, .error)] := by
    rw [after]
    rfl
  have life : t.life = s.life := by
    rw [after]
    rfl
  have given (request : Nat) : t.answersOf request =
      s.answersOf request ++ if s.read = request then [.error] else [] := by
    rw [System.answersOf, answers, List.filterMap_append, System.answersOf]
    split <;> simp_all
  obtain ⟨inside, -⟩ := List.getElem?_eq_some_iff.mp here
  constructor
  · rw [read, sent]
    exact inside
  · rw [created, read]
    exact fun request other made =>
      (answered.requests request other made).trans (Nat.lt_succ_self _)
  · rw [created]
    exact answered.once
  · rw [created, life]
    exact answered.present
  · rw [created, instances]
    exact answered.waiting
  · intro request other made
    rw [created] at made
    have before := answered.requests request other made
    rw [given, if_neg (by omega), List.append_nil, instances,
      decided_launch answered here sent read request other before]
    exact answered.settled request other made
  · intro pair made
    rw [answers, List.mem_append, List.mem_singleton] at made
    rw [read]
    obtain old | rfl := made
    · exact (answered.answered pair old).trans (Nat.lt_succ_self _)
    · exact Nat.lt_succ_self _
  · intro request before asked missing
    rw [created] at missing
    rw [read] at before
    rw [sent] at asked
    rw [given]
    by_cases now : s.read = request
    · rw [if_pos now, answered.unasked request now.le, List.nil_append]
    · rw [if_neg now, List.append_nil]
      exact answered.refused request (by omega) asked missing

theorem told_become (handle : Nat) (life : Life) (made : life ≠ .absent) :
    Told s (s.become handle life) none := by
  refine ⟨rfl, ?_, rfl, (List.append_nil _).symm⟩
  intro other known
  change Function.update s.life handle life other ≠ .absent
  by_cases same : other = handle
  · rw [same, Function.update_self]
    exact made
  · rwa [Function.update_of_ne same]

theorem answered_init : Answered System.init := by
  constructor
  all_goals simp [System.init, System.answersOf]

theorem told_other {action : Action} (taken : step self s action = some t)
    (other : ∀ inst, action ≠ .deliver inst) :
    Told s t none ∧ (∃ more, t.sent = s.sent ++ more) ∧ t.read = s.read := by
  have alone {u : System} (told : Told s u none) (sent : u.sent = s.sent) (read : u.read = s.read) :
      Told s u none ∧ (∃ more, u.sent = s.sent ++ more) ∧ u.read = s.read :=
    ⟨told, ⟨[], by rw [sent, List.append_nil]⟩, read⟩
  have sends (more : List (Nat × Note)) :
      Told s (s.send more) none ∧ (∃ more', (s.send more).sent = s.sent ++ more') ∧
        (s.send more).read = s.read :=
    ⟨⟨rfl, fun _ known => known, rfl, (List.append_nil _).symm⟩, ⟨more, rfl⟩, rfl⟩
  have becomes (more : List (Nat × Note)) (handle : Nat) (life : Life) (made : life ≠ .absent) :
      Told s ((s.send more).become handle life) none ∧
        (∃ more', ((s.send more).become handle life).sent = s.sent ++ more') ∧
        ((s.send more).become handle life).read = s.read := by
    obtain ⟨created, present, instances, answers⟩ := told_become (s := s.send more) handle life made
    exact ⟨⟨created, present, instances, answers⟩, ⟨more, rfl⟩, rfl⟩
  have retires (more : List (Nat × Note)) (handle : Nat) :
      Told s ((s.send more).retire handle) none ∧
        (∃ more', ((s.send more).retire handle).sent = s.sent ++ more') ∧
        ((s.send more).retire handle).read = s.read := by
    unfold System.retire
    split
    · exact sends more
    · exact becomes more handle .retired Life.noConfusion
  cases step_taken self taken with
  | newservice => exact sends _
  | askKill => exact sends _
  | deliver here free => exact absurd rfl (other _)
  | starts loading => exact alone (told_become _ _ Life.noConfusion) rfl rfl
  | silent loading => exact alone (told_become _ _ Life.noConfusion) rfl rfl
  | failed loading => exact becomes _ _ _ Life.noConfusion
  | @started handle starting =>
    obtain ⟨⟨created, present, instances, answers⟩, sent, read⟩ :=
      becomes [(handle, .launchOk)] handle .started Life.noConfusion
    exact ⟨⟨created, present, instances, answers⟩, sent, read⟩
  | raised starting => exact becomes _ _ _ Life.noConfusion
  | exit running => exact becomes _ _ _ Life.noConfusion
  | kill => exact retires _ _
  | @killByName handle =>
    have gone := retires [] handle
    have same : s.send [] = s := by rw [System.send, List.append_nil]
    rw [same] at gone
    exact gone

theorem answered_step {action : Action} (answered : Answered s) (fresh : Fresh s action)
    (taken : step self s action = some t) : Answered t := by
  by_cases delivers : ∃ inst, action = .deliver inst
  · obtain ⟨inst, rfl⟩ := delivers
    cases step_taken self taken with
    | @deliver _ source note here free =>
      by_cases asks : ∃ service param, note = .launch service param
      · obtain ⟨service, param, rfl⟩ := asks
        cases inst with
        | none => exact answered.unlaunched here rfl
        | some handle => exact answered.launched here handle (fresh handle rfl) rfl
      · have other : ∀ service param, note ≠ .launch service param :=
          fun service param is => asks ⟨service, param, is⟩
        obtain ⟨more, sent, read⟩ := sent_dispatch (s := { s with read := s.read + 1 }) self s.read
          source inst note
        have told := told_dispatch (s := { s with read := s.read + 1 }) self s.read source inst note
          other
        exact answered.verdict_sent here other
          ⟨told.created, told.present, told.instances, told.answers⟩ sent read
  · obtain ⟨told, ⟨more, sent⟩, read⟩ := told_other taken fun inst is => delivers ⟨inst, is⟩
    exact answered.grows sent read told

end Pskynet.Launcher
