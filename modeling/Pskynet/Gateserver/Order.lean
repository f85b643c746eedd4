import Pskynet.Gateserver.Service

set_option autoImplicit false

namespace Pskynet.Gateserver

open Netpack

def Extends (before after : List Pack) : Prop := ∃ more, after = before ++ more

theorem Extends.refl (packs : List Pack) : Extends packs packs := ⟨[], (List.append_nil _).symm⟩

theorem Extends.trans {one two three : List Pack} (first : Extends one two)
    (second : Extends two three) : Extends one three := by
  obtain ⟨some_, rfl⟩ := first
  obtain ⟨more, rfl⟩ := second
  exact ⟨some_ ++ more, List.append_assoc _ _ _⟩

theorem pushData_extends (q : Option Queue) (fd : Int) (buffer : List UInt8) (size : Nat)
    (clone : Bool) :
    Extends (getQueue q).ring.contents (pushData q fd buffer size clone).ring.contents :=
  ⟨_, pushData_contents q fd buffer size clone⟩

theorem pushMore_extends (q : Queue) (fd : Int) (buffer : List UInt8) :
    Extends q.ring.contents (pushMore q fd buffer).ring.contents := by
  induction q, buffer using pushMore.induct fd with
  | case1 q =>
    rw [pushMore]
    exact .refl _
  | case2 q byte =>
    rw [pushMore]
    exact .refl _
  | case3 q a b body size short =>
    rw [pushMore]
    simp only
    rw [if_pos short]
    exact .refl _
  | case4 q a b body size whole pushed left more ih =>
    rw [pushMore]
    simp only
    rw [if_neg whole, if_pos more]
    exact (pushData_extends (some q) fd body size true).trans ih
  | case5 q a b body size whole left done =>
    rw [pushMore]
    simp only
    rw [if_neg whole, if_neg done]
    exact pushData_extends (some q) fd body size true

theorem findUncomplete_ring (q left : Queue) (fd : Int) (uc : Uncomplete)
    (found : findUncomplete q fd = some (uc, left)) : left.ring = q.ring :=
  (findUncomplete_some q left fd uc found).2.1

theorem fillUncomplete_extends (q : Queue) (fd : Int) (uc : Uncomplete) (buffer : List UInt8) :
    Extends q.ring.contents (fillUncomplete q fd uc buffer).1.ring.contents := by
  unfold fillUncomplete
  simp only
  split_ifs
  · exact .refl _
  · exact .refl _
  · exact (pushData_extends (some q) fd _ _ false).trans (pushMore_extends _ fd _)

theorem filterData_extends (q : Option Queue) (fd : Int) (buffer : List UInt8) :
    Extends (getQueue q).ring.contents (getQueue (filterData q fd buffer).1).ring.contents := by
  unfold filterData
  cases found : q.bind (findUncomplete · fd) with
  | none =>
    simp only
    split
    · exact .refl _
    · exact .refl _
    · split_ifs
      · exact .refl _
      · exact .refl _
      · exact (pushData_extends q fd _ _ true).trans (pushMore_extends _ fd _)
  | some pair =>
    obtain ⟨uc, left⟩ := pair
    obtain ⟨before, rfl, taken⟩ := Option.bind_eq_some_iff.mp found
    have same : left.ring = before.ring := findUncomplete_ring before left fd uc taken
    have ring : (getQueue (some before)).ring.contents = left.ring.contents := by rw [same]; rfl
    rw [ring]
    simp only
    split_ifs
    · split
      · exact .refl _
      · exact fillUncomplete_extends left fd _ _
    · exact fillUncomplete_extends left fd uc buffer

theorem lfilter_extends (q : Option Queue) (msg : SocketMessage) :
    Extends (getQueue q).ring.contents (getQueue (lfilter q msg).1).ring.contents := by
  cases msg with
  | data id buffer => exact filterData_extends q id buffer
  | connect | close | accept | error => exact .refl _

def Result.isMore : Result → Bool
  | .more => true
  | _ => false

theorem filterData_still (q : Option Queue) (fd : Int) (buffer : List UInt8)
    (other : Result.isMore (filterData q fd buffer).2 = false) :
    (getQueue (filterData q fd buffer).1).ring.contents = (getQueue q).ring.contents := by
  have fill (left : Queue) (uc : Uncomplete) (buffer : List UInt8)
      (other : Result.isMore (fillUncomplete left fd uc buffer).2 = false) :
      (fillUncomplete left fd uc buffer).1.ring.contents = left.ring.contents := by
    unfold fillUncomplete at other ⊢
    simp only at other ⊢
    split_ifs at other ⊢
    · rfl
    · rfl
    · cases other
  unfold filterData at other ⊢
  cases found : q.bind (findUncomplete · fd) with
  | none =>
    rw [found] at other
    simp only at other ⊢
    split at other
    · rfl
    · rfl
    · split_ifs at other ⊢
      · rfl
      · rfl
      · cases other
  | some pair =>
    rw [found] at other
    obtain ⟨uc, left⟩ := pair
    obtain ⟨before, rfl, taken⟩ := Option.bind_eq_some_iff.mp found
    have same : left.ring = before.ring := findUncomplete_ring before left fd uc taken
    have ring : (getQueue (some before)).ring.contents = left.ring.contents := by rw [same]; rfl
    rw [ring]
    simp only at other ⊢
    split_ifs at other ⊢
    · split at other
      · rfl
      · exact fill left _ _ other
    · exact fill left uc buffer other

theorem lfilter_still (q : Option Queue) (msg : SocketMessage)
    (other : Result.isMore (lfilter q msg).2 = false) :
    (getQueue (lfilter q msg).1).ring.contents = (getQueue q).ring.contents := by
  cases msg with
  | data id buffer => exact filterData_still q id buffer other
  | connect | close | accept | error => rfl

structure Ordered (g : Gate) : Prop where
  order : g.received = g.passed ++ g.pending
  known : ∀ id, g.queue = some id → id < g.userdata.length
  stale : ∀ (id : Nat) (q : Queue), g.userdata[id]? = some q → g.queue ≠ some id → q.ring.contents = []
  served : g.pending ≠ [] →
    Code.dispatchQueue ∈ g.forkQueue ∨ g.mode = .running false .dispatchQueue
  idle : g.mode = .idle → g.forkQueue = []

variable {g g' : Gate} {id : Nat} {pack : Pack} {result : Result}

theorem Ordered.frame (ordered : Ordered g) (received : g'.received = g.received)
    (passed : g'.passed = g.passed) (userdata : g'.userdata = g.userdata)
    (queue : g'.queue = g.queue)
    (served : g'.pending ≠ [] →
      Code.dispatchQueue ∈ g'.forkQueue ∨ g'.mode = .running false .dispatchQueue)
    (idle : g'.mode = .idle → g'.forkQueue = []) : Ordered g' := by
  have pending : g'.pending = g.pending := by
    unfold Gate.pending Gate.current
    rw [userdata, queue]
  refine ⟨?_, ?_, ?_, served, idle⟩
  · rw [received, passed, pending]
    exact ordered.order
  · rw [queue, userdata]
    exact ordered.known
  · rw [queue, userdata]
    exact ordered.stale

theorem pending_eq (g : Gate) (id : Nat) (queue : g.queue = some id) :
    g.pending = (getQueue g.userdata[id]?).ring.contents := by
  unfold Gate.pending Gate.current
  rw [queue]
  rfl

theorem contents_emptied (q : Queue) : (emptied q).ring.contents = [] := by
  rw [← List.length_eq_zero_iff, CircularBuffer.length_contents, CircularBuffer.count_zero_iff]
  rfl

theorem Ordered.pop (ordered : Ordered g) (popped : g.pop id = some (pack, g')) :
    g.queue = some id ∧ g.pending = pack :: g'.pending ∧
      ∃ q, g' = { g with userdata := g.userdata.set id q } := by
  obtain ⟨⟨first, q⟩, taken, same⟩ := Option.map_eq_some_iff.mp popped
  obtain ⟨rfl, rfl⟩ := Prod.mk.inj same
  obtain ⟨front, -⟩ := lpop_some _ _ _ taken
  cases there : g.userdata[id]? with
  | none =>
    rw [there] at taken
    cases taken
  | some before =>
    rw [there] at front
    have current : g.queue = some id := by
      by_contra other
      have empty : (getQueue (some before)).ring.contents = [] := ordered.stale id before there other
      rw [empty] at front
      cases front
    have small := ordered.known id current
    refine ⟨current, ?_, q, rfl⟩
    rw [pending_eq g id current, there, front]
    have after : ({ g with userdata := g.userdata.set id q } : Gate).pending = q.ring.contents := by
      rw [pending_eq { g with userdata := g.userdata.set id q } id current]
      show (getQueue (g.userdata.set id q)[id]?).ring.contents = _
      rw [List.getElem?_set_self small]
      rfl
    rw [after]

theorem pop_none_pending (current : g.queue = some id) (empty : g.pop id = none) :
    g.pending = [] := by
  rw [pending_eq g id current]
  exact lpop_none _ (Option.map_eq_none_iff.mp empty)

theorem Ordered.dispatch (ordered : Ordered g) (popped : g.pop id = some (pack, g'))
    (forks : List Code) (code : Code)
    (served : g'.pending ≠ [] → Code.dispatchQueue ∈ forks) :
    Ordered (({ g' with forkQueue := forks } : Gate).dispatchMsg pack code) := by
  obtain ⟨current, pending, q, rfl⟩ := ordered.pop popped
  refine ⟨?_, ?_, ?_, fun some_ => .inl (served some_), fun idle => by cases idle⟩
  · show g.received = (g.passed ++ [pack]) ++ _
    rw [ordered.order, pending, List.append_assoc]
    rfl
  · intro other is
    show other < (g.userdata.set id q).length
    rw [List.length_set]
    exact ordered.known other is
  · intro other old there unused
    have apart : id ≠ other := fun same => unused (same ▸ current)
    change (g.userdata.set id q)[other]? = some old at there
    rw [List.getElem?_set_ne apart] at there
    exact ordered.stale other old there unused

theorem Ordered.switching (ordered : Ordered g)
    (served : g.pending ≠ [] → Code.dispatchQueue ∈ g.forkQueue) :
    Ordered { g with mode := .switching } :=
  ordered.frame rfl rfl rfl rfl (fun some_ => .inl (served some_)) fun idle => by cases idle

theorem Ordered.popLoop (ordered : Ordered g) (id : Nat)
    (served : g.pending ≠ [] → Code.dispatchQueue ∈ g.forkQueue) : Ordered (g.popLoop id) := by
  unfold Gate.popLoop
  cases popped : g.pop id with
  | none => exact ordered.switching served
  | some pair =>
    obtain ⟨pack, g'⟩ := pair
    obtain ⟨_, pending, q, same⟩ := ordered.pop popped
    refine ordered.dispatch popped g'.forkQueue _ fun _ => ?_
    rw [same]
    exact served (by rw [pending]; exact List.cons_ne_nil _ _)

theorem Ordered.run (ordered : Ordered g) {handler : Bool} {code : Code}
    (mode : g.mode = .running handler code) : Ordered (g.run code) := by
  have served (other : code ≠ .dispatchQueue) (some_ : g.pending ≠ []) :
      Code.dispatchQueue ∈ g.forkQueue := by
    refine (ordered.served some_).resolve_right fun starts => ?_
    rw [mode] at starts
    exact other (Mode.running.inj starts).2
  have switches (same : g.run code = { g with mode := .switching })
      (served : g.pending ≠ [] → Code.dispatchQueue ∈ g.forkQueue) : Ordered (g.run code) := by
    rw [same]
    exact ordered.switching served
  cases code with
  | dispatchQueue =>
    cases queue : g.queue with
    | none =>
      refine switches (by simp only [Gate.run, queue, Option.bind_none]) fun some_ => absurd ?_ some_
      unfold Gate.pending Gate.current
      rw [queue]
      exact CircularBuffer.contents_new _ _ _
    | some id =>
      cases popped : g.pop id with
      | none =>
        refine switches (by simp only [Gate.run, queue, Option.bind_some, popped]) fun some_ => ?_
        exact absurd (pop_none_pending queue popped) some_
      | some pair =>
        obtain ⟨pack, g'⟩ := pair
        simp only [Gate.run, queue, Option.bind_some, popped]
        exact ordered.dispatch popped _ _ fun _ => List.mem_append_right _ (List.mem_singleton_self _)
  | popRest =>
    cases queue : g.queue with
    | none => exact switches (by simp only [Gate.run, queue]) (served Code.noConfusion)
    | some id =>
      simp only [Gate.run, queue]
      exact ordered.popLoop id (served Code.noConfusion)
  | popFrom id => exact ordered.popLoop id (served Code.noConfusion)
  | closeFd fd =>
    cases open_ : g.connection fd with
    | none => exact switches (by simp only [Gate.run, open_]) (served Code.noConfusion)
    | some _ =>
      simp only [Gate.run, open_]
      exact ordered.frame rfl rfl rfl rfl (fun some_ => .inl (served Code.noConfusion some_))
        fun idle => by cases idle
  | finish => exact switches rfl (served Code.noConfusion)

-- `filter` leaves all but the queue as it is, and only the queue in use has packets again.
structure Filtered (g g' : Gate) (filtered : Option Queue) : Prop where
  frame : ∃ userdata queue, g' = { g with userdata := userdata, queue := queue }
  pending : g'.pending = (getQueue filtered).ring.contents
  known : ∀ id, g'.queue = some id → id < g'.userdata.length
  stale : ∀ (id : Nat) (q : Queue), g'.userdata[id]? = some q → g'.queue ≠ some id → q.ring.contents = []

theorem Ordered.filter (ordered : Ordered g) (msg : SocketMessage)
    (filtered : g.filter msg = (g', result)) :
    Filtered g g' (lfilter g.current msg).1 ∧ result = (lfilter g.current msg).2 := by
  have more := lfilter_extends g.current msg
  have newest (userdata : List Queue) (q : Queue)
      (stale : ∀ (id : Nat) (old : Queue), userdata[id]? = some old → old.ring.contents = []) :
      Filtered g { g with userdata := userdata ++ [q], queue := some userdata.length } (some q) := by
    refine ⟨⟨_, _, rfl⟩, ?_, ?_, ?_⟩
    · rw [pending_eq { g with userdata := userdata ++ [q], queue := some userdata.length }
        userdata.length rfl, List.getElem?_concat_length]
    · rintro id same
      obtain rfl := Option.some.inj same
      simp
    · intro id old there unused
      have apart : id ≠ userdata.length := fun same => unused (congrArg some same.symm)
      have small : id < userdata.length := by
        have inside := (List.getElem?_eq_some_iff.mp there).1
        simp only [List.length_append, List.length_singleton] at inside
        omega
      refine stale id old ?_
      rw [← there]
      exact (List.getElem?_append_left small).symm
  have same_ (current : Nat) (queue : g.queue = some current) (q : Queue) :
      Filtered g { g with userdata := g.userdata.set current q, queue := some current } (some q) := by
    have small := ordered.known current queue
    refine ⟨⟨_, _, rfl⟩, ?_, ?_, ?_⟩
    · rw [pending_eq { g with userdata := g.userdata.set current q, queue := some current } current
        rfl, List.getElem?_set_self small]
    · rintro id same
      obtain rfl := Option.some.inj same
      rwa [List.length_set]
    · intro id old there unused
      have apart : current ≠ id := fun same => unused (congrArg some same)
      rw [List.getElem?_set_ne apart] at there
      exact ordered.stale id old there (queue ▸ unused)
  unfold Gate.filter at filtered
  cases taken : lfilter g.current msg with
  | mk after outcome =>
    rw [taken] at filtered more
    cases after with
    | none =>
      obtain ⟨rfl, rfl⟩ := Prod.mk.inj filtered
      refine ⟨⟨⟨_, _, rfl⟩, ?_, ordered.known, ordered.stale⟩, rfl⟩
      obtain ⟨added, same⟩ := more
      have empty : (getQueue none).ring.contents = [] := CircularBuffer.contents_new _ _ _
      rw [empty] at same ⊢
      exact (List.append_eq_nil_iff.mp same.symm).1
    | some q =>
      cases queue : g.queue with
      | none =>
        rw [queue] at filtered
        obtain ⟨rfl, rfl⟩ := Prod.mk.inj filtered
        refine ⟨newest g.userdata q fun id old there => ?_, rfl⟩
        exact ordered.stale id old there (queue ▸ Option.some_ne_none id |>.symm)
      | some current =>
        have small := ordered.known current queue
        rw [queue] at filtered
        simp only at filtered
        split_ifs at filtered with same
        · obtain ⟨rfl, rfl⟩ := Prod.mk.inj filtered
          exact ⟨same_ current queue q, rfl⟩
        · obtain ⟨rfl, rfl⟩ := Prod.mk.inj filtered
          have fresh := newest (g.userdata.set current (emptied (getQueue g.current))) q (by
            intro id old there
            by_cases here : current = id
            · rw [← here, List.getElem?_set_self small] at there
              rw [← Option.some.inj there]
              exact contents_emptied _
            · rw [List.getElem?_set_ne here] at there
              refine ordered.stale id old there ?_
              rw [queue]
              exact fun same => here (Option.some.inj same))
          rw [List.length_set] at fresh
          exact ⟨fresh, rfl⟩

theorem Ordered.pending_idle (ordered : Ordered g) (idle : g.mode = .idle) : g.pending = [] := by
  by_contra some_
  rcases ordered.served some_ with forked | starts
  · rw [ordered.idle idle] at forked
    cases forked
  · cases idle.symm.trans starts

theorem Ordered.receive (ordered : Ordered g) (idle : g.mode = .idle) (msg : SocketMessage) :
    Ordered (g.receive msg) := by
  have empty := ordered.pending_idle idle
  have all : g.received = g.passed := by
    rw [ordered.order, empty, List.append_nil]
  unfold Gate.receive
  cases filtered : g.filter msg with
  | mk after result =>
    obtain ⟨⟨⟨userdata, queue, rfl⟩, pending, known, stale⟩, outcome⟩ := ordered.filter msg filtered
    have built (g' : Gate) (sameUserdata : g'.userdata = userdata) (sameQueue : g'.queue = queue)
        (order : g'.received = g'.passed ++
          ({ g with userdata := userdata, queue := queue } : Gate).pending)
        (served : ({ g with userdata := userdata, queue := queue } : Gate).pending ≠ [] →
          g'.mode = .running false .dispatchQueue)
        (busy : g'.mode ≠ .idle) : Ordered g' := by
      have same : g'.pending = ({ g with userdata := userdata, queue := queue } : Gate).pending := by
        unfold Gate.pending Gate.current
        rw [sameUserdata, sameQueue]
      refine ⟨same ▸ order, ?_, ?_, fun some_ => .inr (served (same ▸ some_)),
        fun idle => absurd idle busy⟩
      · rw [sameUserdata, sameQueue]
        exact known
      · rw [sameUserdata, sameQueue]
        exact stale
    have still (other : Result.isMore result = false) :
        ({ g with userdata := userdata, queue := queue } : Gate).pending = [] := by
      rw [pending, lfilter_still g.current msg (outcome ▸ other)]
      exact empty
    have quiet (g' : Gate) (other : Result.isMore result = false)
        (sameUserdata : g'.userdata = userdata) (sameQueue : g'.queue = queue)
        (order : g'.received = g'.passed) (busy : g'.mode ≠ .idle) : Ordered g' := by
      refine built g' sameUserdata sameQueue ?_ (fun some_ => absurd (still other) some_) busy
      rw [still other, List.append_nil]
      exact order
    have nothing (other : Result.isMore result = false) :
        g.received ++ (({ g with userdata := userdata, queue := queue } : Gate).pending).drop
          g.pending.length = g.passed := by
      rw [still other, List.drop_nil, List.append_nil]
      exact all
    cases result with
    | nothing => exact quiet _ rfl rfl rfl (nothing rfl) Mode.noConfusion
    | data fd buffer size =>
      exact quiet _ rfl rfl rfl (congrArg (· ++ _) all) Mode.noConfusion
    | more =>
      refine built _ rfl rfl ?_ (fun _ => rfl) Mode.noConfusion
      show g.received ++ (({ g with userdata := userdata, queue := queue } : Gate).pending).drop
        g.pending.length = g.passed ++ _
      rw [empty, all]
      rfl
    | opened fd text =>
      simp only
      split_ifs
      · exact quiet _ rfl rfl rfl (nothing rfl) Mode.noConfusion
      · exact quiet _ rfl rfl rfl (nothing rfl) Mode.noConfusion
    | closed fd => exact quiet _ rfl rfl rfl (nothing rfl) Mode.noConfusion
    | error fd text => exact quiet _ rfl rfl rfl (nothing rfl) Mode.noConfusion

theorem start_pending (maxclient : Int) (disconnect error : Bool) :
    (Gate.start maxclient disconnect error).pending = [] :=
  CircularBuffer.contents_new _ _ _

theorem start_ordered (maxclient : Int) (disconnect error : Bool) :
    Ordered (.start maxclient disconnect error) where
  order := by
    rw [start_pending]
    rfl
  known := fun _ is => by cases is
  stale := fun _ _ there => by cases there
  served := fun some_ => absurd (start_pending _ _ _) some_
  idle := fun _ => rfl

theorem Ordered.user (ordered : Ordered g) {code : Code} (mode : g.mode = .running true code)
    (received : g'.received = g.received) (passed : g'.passed = g.passed)
    (userdata : g'.userdata = g.userdata) (queue : g'.queue = g.queue)
    (forks : ∀ code ∈ g.forkQueue, code ∈ g'.forkQueue) (busy : g'.mode ≠ .idle) : Ordered g' := by
  have pending : g'.pending = g.pending := by
    unfold Gate.pending Gate.current
    rw [userdata, queue]
  refine ordered.frame received passed userdata queue (fun some_ => .inl ?_)
    fun idle => absurd idle busy
  refine forks _ ((ordered.served (pending ▸ some_)).resolve_right fun starts => ?_)
  cases mode.symm.trans starts

theorem Ordered.switch (ordered : Ordered g) (mode : g.mode = .switching) (next : Mode)
    (suspended forks : List Code) (busy : next ≠ .idle)
    (served : Code.dispatchQueue ∈ g.forkQueue →
      Code.dispatchQueue ∈ forks ∨ next = .running false .dispatchQueue) :
    Ordered { g with suspended := suspended, forkQueue := forks, mode := next } := by
  refine ordered.frame rfl rfl rfl rfl (fun some_ => served ?_) fun idle => absurd idle busy
  refine (ordered.served some_).resolve_right fun starts => ?_
  cases mode.symm.trans starts

theorem Ordered.woken (ordered : Ordered g) (idle : g.mode = .idle) (next : Mode)
    (suspended : List Code) (busy : next ≠ .idle) :
    Ordered { g with suspended := suspended, mode := next } :=
  ordered.frame rfl rfl rfl rfl (fun some_ => absurd (ordered.pending_idle idle) some_)
    fun idle => absurd idle busy

theorem step_ordered (action : Action) (ordered : Ordered g) (taken : step g action = some g') :
    Ordered g' := by
  cases action with
  | receive msg =>
    simp only [step, Option.ite_none_right_eq_some] at taken
    obtain ⟨idle, same⟩ := taken
    obtain rfl := Option.some.inj same
    exact ordered.receive idle msg
  | command =>
    simp only [step, Option.ite_none_right_eq_some] at taken
    obtain ⟨idle, same⟩ := taken
    obtain rfl := Option.some.inj same
    exact ordered.woken idle _ _ Mode.noConfusion
  | response code =>
    simp only [step, Option.ite_none_right_eq_some] at taken
    obtain ⟨⟨idle, _⟩, same⟩ := taken
    obtain rfl := Option.some.inj same
    exact ordered.woken idle _ _ Mode.noConfusion
  | advance =>
    simp only [step] at taken
    split at taken
    · rename_i mode
      obtain rfl := Option.some.inj taken
      exact ordered.run mode
    · contradiction
  | raise =>
    simp only [step] at taken
    split at taken
    · rename_i mode
      obtain rfl := Option.some.inj taken
      exact ordered.user mode rfl rfl rfl rfl (fun _ inside => inside) Mode.noConfusion
    · contradiction
  | wait =>
    simp only [step] at taken
    split at taken
    · rename_i mode
      obtain rfl := Option.some.inj taken
      exact ordered.user mode rfl rfl rfl rfl (fun _ inside => inside) Mode.noConfusion
    · contradiction
  | fork =>
    simp only [step] at taken
    split at taken
    · rename_i mode
      obtain rfl := Option.some.inj taken
      exact ordered.user mode rfl rfl rfl rfl (fun _ inside => List.mem_append_left _ inside)
        (by rw [mode]; exact Mode.noConfusion)
    · contradiction
  | closeclient fd =>
    simp only [step] at taken
    split at taken
    · rename_i mode
      obtain rfl := Option.some.inj taken
      have busy : g.mode ≠ .idle := by rw [mode]; exact Mode.noConfusion
      split_ifs
      · exact ordered.user mode rfl rfl rfl rfl (fun _ inside => inside) busy
      · exact ordered
    · contradiction
  | wakeup code =>
    simp only [step, Option.ite_none_right_eq_some] at taken
    obtain ⟨⟨mode, _⟩, same⟩ := taken
    obtain rfl := Option.some.inj same
    exact ordered.switch mode _ _ _ Mode.noConfusion .inl
  | forked code =>
    simp only [step, Option.ite_none_right_eq_some] at taken
    obtain ⟨⟨mode, _⟩, same⟩ := taken
    obtain rfl := Option.some.inj same
    refine ordered.switch mode _ _ _ Mode.noConfusion fun inside => ?_
    by_cases own : code = .dispatchQueue
    · rw [own]
      exact .inr rfl
    · exact .inl ((List.mem_erase_of_ne (Ne.symm own)).mpr inside)
  | done =>
    simp only [step, Option.ite_none_right_eq_some] at taken
    obtain ⟨⟨mode, none_⟩, same⟩ := taken
    obtain rfl := Option.some.inj same
    refine ordered.frame rfl rfl rfl rfl (fun some_ => ?_) fun _ => none_
    rcases ordered.served some_ with forked | starts
    · rw [none_] at forked
      cases forked
    · cases mode.symm.trans starts

theorem packets_in_order (maxclient : Int) (disconnect error : Bool) (actions : List Action)
    (g : Gate)
    (reached : Transition.run step (.start maxclient disconnect error) actions = some g) :
    g.received = g.passed ++ g.pending ∧
      (g.mode = .idle → g.pending = [] ∧ ∀ fd,
        (g.passed.filter fun pack => pack.id = fd) = g.received.filter fun pack => pack.id = fd) := by
  have ordered := Transition.run_invariant step Ordered
    (fun _ action _ ordered taken => step_ordered action ordered taken) actions _ g
    (start_ordered maxclient disconnect error) reached
  refine ⟨ordered.order, fun idle => ⟨ordered.pending_idle idle, fun fd => ?_⟩⟩
  rw [ordered.order, ordered.pending_idle idle, List.append_nil]

-- Three packets come at once, and the handlers of the first and the last wait.
def burst : List Action :=
  [.receive (.accept 1 5 []), .advance, .done,
    .receive (.data 5 [0, 1, 7, 0, 1, 8, 0, 1, 9]), .advance, .wait, .forked .dispatchQueue,
    .advance, .advance, .wait, .forked .dispatchQueue, .advance, .done]

def burstEnd : Gate :=
  (Transition.run step (.start 10 true true) burst).getD (.start 10 true true)

theorem burst_run : Transition.run step (.start 10 true true) burst = some burstEnd := by
  have ends : (Transition.run step (.start 10 true true) burst).isSome = true := by decide +kernel
  obtain ⟨g, reached⟩ := Option.isSome_iff_exists.mp ends
  rw [burstEnd, reached, Option.getD_some]

def burstQueue : Queue := getQueue burstEnd.current

theorem burstEnd_waits : burstEnd.mode = .idle ∧ burstEnd.queue = some 0 ∧
    burstEnd.suspended = [.popRest, .popFrom 0] ∧ burstEnd.current.isSome := by
  decide +kernel

theorem burstEnd_userdata : burstEnd.userdata.length = 1 := by decide +kernel

theorem burstQueue_empty : burstQueue.ring.cap = 1024 ∧ burstQueue.ring.contents = [] ∧
    burstQueue.hash (hashFd 5) = [] := by
  decide +kernel

def flood (n : Nat) : List UInt8 :=
  (List.replicate n (7 : UInt8)).flatMap fun byte => [0, 1] ++ [byte]

theorem split_flood (n : Nat) : Framing.split format (flood n) = (List.replicate n [7], []) := by
  have whole := Framing.split_packets format (List.replicate n (7 : UInt8)) (fun _ => [0, 1])
    (fun byte => [byte]) (fun _ _ => rfl) (fun _ _ => rfl) []
  rwa [List.append_nil, split_nil, List.map_replicate, List.append_nil] at whole

theorem flood_more (n : Nat) (q : Queue) (clear : q.hash (hashFd 5) = []) :
    ∃ after, filterData (some q) 5 (flood (n + 2)) = (some after, .more) ∧
      after.ring.contents = q.ring.contents ++ List.replicate (n + 2) (Netpack.pack 5 [7]) := by
  have whole : flood (n + 2) = 0 :: 1 :: 7 :: flood (n + 1) := by
    simp [flood, List.replicate_succ]
  have more : 0 < (flood (n + 1)).length := by simp [flood, List.replicate_succ]
  have unknown : (some q).bind (findUncomplete · 5) = none := by
    simp [findUncomplete, clear, unlink]
  refine ⟨pushMore (pushData (some q) 5 (7 :: flood (n + 1)) 1 true) 5 (flood (n + 1)), ?_, ?_⟩
  · have long : ¬(7 :: flood (n + 1)).length < 1 := by simp
    have longer : ¬(7 :: flood (n + 1)).length = 1 := by
      rw [List.length_cons]
      omega
    have size : readSize 0 1 = 1 := rfl
    unfold filterData
    rw [unknown, whole]
    simp only [size]
    rw [if_neg long, if_neg longer]
    rfl
  · have fed := pushMore_fed (pushData (some q) 5 (7 :: flood (n + 1)) 1 true) 5 (flood (n + 1))
      (by simp [entries, pushData_hash, getQueue, clear])
    rw [fed.ring, split_flood, pushData_contents, List.map_replicate, List.append_assoc]
    rfl

theorem flood_replaces (n : Nat) (g : Gate) (q : Queue) (id : Nat) (current : g.current = some q)
    (queue : g.queue = some id) (clear : q.hash (hashFd 5) = []) (small : q.ring.cap ≤ n + 2) :
    (g.receive (.data 5 (flood (n + 2)))).queue = some g.userdata.length ∧
      (g.receive (.data 5 (flood (n + 2)))).suspended = g.suspended ∧
      (g.receive (.data 5 (flood (n + 2)))).pending =
        q.ring.contents ++ List.replicate (n + 2) (Netpack.pack 5 [7]) := by
  obtain ⟨after, filtered, contents⟩ := flood_more n q clear
  have grown : ¬q.ring.cap = after.ring.cap := by
    have fits := after.ring.count_lt
    have length := congrArg List.length contents
    rw [CircularBuffer.length_contents, List.length_append, List.length_replicate] at length
    omega
  have made : g.filter (.data 5 (flood (n + 2))) =
      ({ g with
        userdata := g.userdata.set id (emptied q) ++ [after]
        queue := some g.userdata.length }, .more) := by
    simp only [Gate.filter, current, lfilter, filtered, queue, getQueue]
    rw [if_neg grown]
  simp only [Gate.receive, made]
  refine ⟨trivial, trivial, ?_⟩
  simp [Gate.pending, Gate.current, getQueue, contents]

theorem oneClient_in_order : ∃ g,
    Transition.run step (.start 10 true true) (burst ++ [.receive (.data 5 (flood 1025))]) = some g ∧
      g.queue = some 1 ∧ g.suspended = [.popRest, .popFrom 0] ∧ g.pending.length = 1025 ∧
      g.received = g.passed ++ g.pending := by
  obtain ⟨idle, queue, suspended, some_⟩ := burstEnd_waits
  obtain ⟨cap, empty, clear⟩ := burstQueue_empty
  obtain ⟨q, current⟩ := Option.isSome_iff_exists.mp some_
  have same : burstQueue = q := by rw [burstQueue, current, getQueue]
  rw [same] at cap empty clear
  obtain ⟨replaced, waits, pending⟩ := flood_replaces 1023 burstEnd q 0 current queue clear
    (by rw [cap]; decide)
  have reached : Transition.run step (.start 10 true true)
      (burst ++ [.receive (.data 5 (flood 1025))]) =
        some (burstEnd.receive (.data 5 (flood 1025))) := by
    rw [Transition.run_append, burst_run, Option.bind_some]
    simp only [Transition.run, step, idle, if_true]
  refine ⟨_, reached, ?_, ?_, ?_, (packets_in_order 10 true true _ _ reached).1⟩
  · rw [replaced, burstEnd_userdata]
  · rw [waits, suspended]
  · rw [pending, empty, List.nil_append, List.length_replicate]

end Pskynet.Gateserver
