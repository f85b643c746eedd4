import Pskynet.Socketchannel.Closing
import Pskynet.Socketchannel.Wakeful

set_option autoImplicit false

namespace Pskynet.Socketchannel

open Channel Sockets

variable {S D : Type}

namespace Channel

def results (s : Channel S D) (n : Nat) : List (Result S D) :=
  (s.delivered.filter fun entry => entry.1 = n).map Prod.snd

def Quiet (s : Channel S D) : Prop :=
  s.net.awake = [] ∧ s.running = none ∧ ∀ k < s.connections, s.dispatchers k ≠ .forked

end Channel

-- The `n`-th request has nothing yet, or the `n`-th reply, or a socket error if the connection
-- failed before that reply. When the connection is closed and no coroutine is to run, each request has
-- its result.
structure Matched (s : Channel S D) : Prop where
  result : ∀ n, s.results n = [] ∨
    (∃ answer, s.replies[n]? = some (0, some n, answer) ∧ s.results n = [.reply 0 answer]) ∨
      (s.results n = [.socketError 0] ∧ s.replies.length ≤ n ∧ s.sock = none)
  replied : ∀ (n j : Nat) (func : Option Nat) (answer : Answer S D),
    s.replies[n]? = some (j, func, answer) →
      j = 0 ∧ func = some n ∧ s.results n = [.reply 0 answer]
  asked : ∀ n, s.results n ≠ [] → n < s.registered.length
  released : (s.net.pool 0).connected = false → s.Quiet →
    ∀ n < s.registered.length, s.results n ≠ []

-- The channel connects once, and nobody calls `close` or `changehost`.
def OneConnection (s : Channel S D) : Action S D → Prop
  | .opened => s.connections = 0
  | .close | .changehost => False
  | .connect | .reopen | .notOpened | .authEnd _ | .request _ | .writeFails | .data _ _
  | .disconnect _ | .start _ | .loop _ | .resume _ => True

def Unread (s : Channel S D) : Action S D → Prop
  | .resume (.closer j) => (s.net.pool j).co = none
  | .resume (.dispatch _) | .opened | .close | .changehost | .connect | .reopen | .notOpened
  | .authEnd _ | .request _ | .writeFails | .data _ _ | .disconnect _ | .start _ | .loop _ => True

structure Single (s : Channel S D) : Prop where
  stable : Stable .order s
  wired : Wired s
  left : Left s
  wakeful : Wakeful s 0
  one : s.connections ≤ 1
  given : s.given = []

variable {s t : Channel S D} {hand : Option (Nat × Option Nat)}

theorem results_of_mem (once : (s.delivered.map Prod.fst).Nodup) {n : Nat} {result : Result S D}
    (inside : (n, result) ∈ s.delivered) : s.results n = [result] := by
  unfold Channel.results
  generalize s.delivered = delivered at once inside
  induction delivered with
  | nil => cases inside
  | cons entry rest ih =>
    obtain ⟨apart, once⟩ := List.nodup_cons.mp once
    rcases List.mem_cons.mp inside with rfl | later
    · have others : rest.filter (fun entry => entry.1 = n) = [] := by
        refine List.filter_eq_nil_iff.mpr ?_
        intro entry there same
        have member := List.mem_map_of_mem (f := Prod.fst) there
        rw [of_decide_eq_true same] at member
        exact apart member
      simp [others]
    · have other : entry.1 ≠ n := by
        intro same
        have member := List.mem_map_of_mem (f := Prod.fst) later
        rw [← same] at member
        exact apart member
      simpa [other] using ih once later

theorem mem_of_results {n : Nat} (found : s.results n ≠ []) :
    ∃ result, (n, result) ∈ s.delivered := by
  obtain ⟨result, inside⟩ := List.exists_mem_of_ne_nil _ found
  obtain ⟨⟨co, other⟩, there, rfl⟩ := List.mem_map.mp inside
  obtain ⟨there, same⟩ := List.mem_filter.mp there
  refine ⟨other, ?_⟩
  rw [← of_decide_eq_true same]
  exact there

section One

variable {mode : Mode} (held : Held mode s hand) (one : s.connections ≤ 1)

include held one

theorem registered_zero {co j : Nat} {response : Option S}
    (found : s.registered[co]? = some (j, response)) : j = 0 := by
  have := held.bound co j response found
  omega

theorem asked_zero : s.asked 0 = List.range s.registered.length := by
  have all : s.registered.zipIdx.filter (fun entry => entry.1.1 = 0) = s.registered.zipIdx := by
    refine List.filter_eq_self.mpr ?_
    rintro ⟨⟨j, response⟩, co⟩ inside
    have found := List.mk_mem_zipIdx_iff_getElem?.mp inside
    exact decide_eq_true (registered_zero held one found)
  unfold Channel.asked
  rw [all, List.zipIdx_map_snd]
  exact List.range_eq_range'.symm

theorem delivered_zero {co : Nat} {result : Result S D} (inside : (co, result) ∈ s.delivered) :
    result.connection = 0 := by
  obtain ⟨response, found⟩ := held.fits co result inside
  exact registered_zero held one found

theorem replies_served (order : mode = .order) :
    s.replies.map (fun reply => reply.2.1) = (s.served 0).map some := by
  rw [held.read order, Channel.served, List.map_filterMap, List.map_filterMap]
  refine List.filterMap_congr ?_
  rintro ⟨co, result⟩ inside
  have zero := delivered_zero held one inside
  cases result with
  | reply j answer =>
    cases zero
    rfl
  | socketError j => rfl

theorem reply_func (order : mode = .order) {n j : Nat} {func : Option Nat} {answer : Answer S D}
    (found : s.replies[n]? = some (j, func, answer)) : j = 0 ∧ func = some n ∧
      (n, .reply 0 answer) ∈ s.delivered := by
  have served := congrArg (fun funcs => funcs[n]?) (replies_served held one order)
  simp only [List.getElem?_map, found, Option.map_some] at served
  cases there : (s.served 0)[n]? with
  | none => simp [there] at served
  | some co =>
    rw [there] at served
    cases served
    obtain ⟨bound, is⟩ := List.getElem?_eq_some_iff.mp there
    have asked := List.prefix_iff_getElem?.mp (held.served order 0) n bound
    rw [asked_zero held one, is] at asked
    obtain ⟨_, same⟩ := List.getElem?_eq_some_iff.mp asked
    simp only [List.getElem_range] at same
    subst same
    have inside := List.mem_of_getElem? found
    rw [held.read order] at inside
    obtain ⟨⟨co, result⟩, delivered, reads⟩ := List.mem_filterMap.mp inside
    have zero := delivered_zero held one delivered
    cases result with
    | reply i other =>
      cases reads
      cases zero
      exact ⟨rfl, rfl, delivered⟩
    | socketError i => cases reads

end One

variable [DecidableEq S]

omit [DecidableEq S] in
theorem start_single : Single (Channel.start : Channel S D) where
  stable := start_stable .order
  wired := start_wired
  left := start_left
  wakeful := by
    refine ⟨?_, ?_, ?_⟩
    · rintro (is | is)
      · cases is
      · cases is
    · intro is
      cases is
    · intro is
      cases is
  one := Nat.zero_le 1
  given := rfl

omit [DecidableEq S] in
theorem Single.index (single : Single s) {k : Nat} (bound : k < s.connections) :
    k = 0 ∧ s.connections = 1 := by
  have := single.one
  omega

omit [DecidableEq S] in
theorem Single.forked (single : Single s) {k : Nat} (is : s.dispatchers k = .forked) :
    k < s.connections := by
  refine Nat.lt_of_not_le fun outside => ?_
  cases is.symm.trans (single.stable.core.absent k outside).1

omit [DecidableEq S] in
theorem Single.closer (single : Single s) {k : Nat} {after : After} (is : s.closers k = some after) :
    k < s.connections := by
  refine Nat.lt_of_not_le fun outside => ?_
  cases is.symm.trans (single.stable.core.absent k outside).2

omit [DecidableEq S] in
theorem Single.connected (single : Single s) {k : Nat} (is : (s.net.pool k).connected = true) :
    k < s.connections := by
  refine Nat.lt_of_not_le fun outside => ?_
  cases is.symm.trans (single.wired.sound.fresh k outside).2.2

theorem Single.newest {auth : Bool} {action : Action S D} (single : Single s)
    (one : OneConnection s action) (taken : step ⟨.order, auth⟩ s action = some t) :
    Newest s action := by
  have core := single.stable.core
  have last : ∀ {k}, k < s.connections → k + 1 = s.connections := by
    intro k bound
    have := single.index bound
    omega
  cases running : s.running with
  | some k =>
    cases action with
    | loop k' => trivial
    | _ => simp [Socketchannel.step, running, turn] at taken
  | none =>
    simp only [Socketchannel.step, running] at taken
    cases action with
    | opened =>
      have none_ : s.connections = 0 := one
      refine List.eq_nil_iff_forall_not_mem.mpr ?_
      intro co waits
      obtain ⟨j, response, _, on⟩ := core.held.newest co (List.mem_append_right _ waits)
      omega
    | start k =>
      simp only [act] at taken
      split_ifs at taken with forked
      exact last (single.forked forked)
    | resume co =>
      simp only [act] at taken
      split_ifs at taken with woken
      have bound := single.wired.sound.bound co woken
      cases co with
      | dispatch k => exact last bound
      | closer j => exact fun _ => last bound
    | _ => trivial

structure Alone (t : Channel S D) : Prop where
  wakeful : Wakeful t 0
  one : t.connections ≤ 1
  given : t.given = []

omit [DecidableEq S] in
theorem Single.frame (single : Single s) (frame : Frame s t) (wakeful : Wakeful t 0) : Alone t where
  wakeful := wakeful
  one := frame.connections ▸ single.one
  given := frame.given.trans single.given

theorem Single.alone {auth : Bool} {action : Action S D} (single : Single s)
    (one : OneConnection s action) (unread : Unread s action)
    (taken : step ⟨.order, auth⟩ s action = some t) : Alone t := by
  have stable := single.stable
  have wired := single.wired
  have wakeful := single.wakeful
  have sock : ∀ i, s.sock = some i → i = 0 := by
    intro i there
    have := stable.core.sock i there
    have := single.one
    omega
  cases running : s.running with
  | some k =>
    have on := stable.core.running k running
    have bound : k < s.connections := on ▸ Nat.lt_succ_self k
    obtain ⟨rfl, _⟩ := single.index bound
    have up := wakeful.up stable wired on
    cases action with
    | loop k' =>
      simp only [Socketchannel.step, running, turn] at taken
      split_ifs at taken
      split at taken
      next phase =>
        rw [phase] at up
        cases taken
        exact single.frame frame_loop (up id id).loop
      next j popped phase =>
        have own := stable.core.own 0
        rw [phase] at up own
        obtain ⟨rfl, _⟩ := own
        cases taken
        exact single.frame frame_read (up id id).read
      next => cases taken
    | _ => simp [Socketchannel.step, running, turn] at taken
  | none =>
    simp only [Socketchannel.step, running] at taken
    cases action with
    | loop k => cases taken
    | connect =>
      simp only [act] at taken
      split at taken
      · split_ifs at taken
        cases taken
        exact ⟨wakeful.same rfl rfl rfl, single.one, single.given⟩
      · cases taken
    | reopen =>
      cases taken
      exact ⟨wakeful.same rfl rfl rfl, single.one, single.given⟩
    | opened =>
      have none_ : s.connections = 0 := one
      simp only [act] at taken
      split at taken
      · cases taken
        refine ⟨?_, ?_, single.given⟩
        · have phase : (s.established ⟨.order, auth⟩).dispatchers 0 = .forked := by
            simp [Channel.established, none_]
          have closer : (s.established ⟨.order, auth⟩).closers 0 = none :=
            (stable.core.absent 0 (none_ ▸ Nat.le_refl 0)).2
          refine ⟨?_, ?_, ?_⟩
          · rw [phase]
            rintro (is | is)
            · exact is.elim
            · exact is.elim
          · rw [closer]
            intro is
            cases is
          · rw [closer]
            intro is
            cases is
        · simp [Channel.established, none_]
      · cases taken
    | notOpened =>
      simp only [act] at taken
      split at taken
      · cases taken
        exact ⟨wakeful.same rfl rfl rfl, single.one, single.given⟩
      · cases taken
    | authEnd ok =>
      simp only [act] at taken
      split at taken
      · split_ifs at taken
        · cases taken
          exact ⟨wakeful.same rfl rfl rfl, single.one, single.given⟩
        · cases taken
          exact ⟨wakeful.same rfl rfl rfl, single.one, single.given⟩
        · cases taken
          exact single.frame (frame_closeChannelSocket .order s .auth)
            (wakeful.closeChannelSocket stable wired sock .auth)
      · cases taken
    | request response =>
      simp only [act] at taken
      split at taken
      next j there =>
        split at taken
        · cases taken
          exact ⟨wakeful.same rfl rfl rfl, single.one, single.given⟩
        · cases taken
      next => cases taken
    | writeFails =>
      simp only [act] at taken
      split_ifs at taken
      cases taken
      exact single.frame (frame_closeChannelSocket .order s .wakeupAll)
        (wakeful.closeChannelSocket stable wired sock .wakeupAll)
    | close => exact one.elim
    | changehost => exact one.elim
    | data j chunk =>
      simp only [act] at taken
      split_ifs at taken with connected
      cases taken
      obtain ⟨rfl, _⟩ := single.index (single.connected connected)
      exact ⟨wakeful.keeps (keeps_data s.net 0 chunk), single.one, single.given⟩
    | disconnect j =>
      simp only [act] at taken
      split_ifs at taken with connected
      cases taken
      obtain ⟨rfl, _⟩ := single.index (single.connected connected)
      exact ⟨wakeful.keeps (keeps_disconnect s.net 0), single.one, single.given⟩
    | start k =>
      simp only [act] at taken
      split_ifs at taken with forked
      cases taken
      obtain ⟨rfl, on⟩ := single.index (single.forked forked)
      have up := wakeful.up stable wired on.symm
      rw [forked] at up
      exact ⟨(up id id).setPhase id id, single.one, single.given⟩
    | resume co =>
      simp only [act] at taken
      split_ifs at taken with woken
      have bound := wired.sound.bound co woken
      cases co with
      | dispatch k =>
        obtain ⟨rfl, on⟩ := single.index bound
        cases taken
        exact single.frame ((frame_net _).trans frame_resume)
          (wakeful.resume stable wired on.symm woken)
      | closer j =>
        obtain ⟨rfl, on⟩ := single.index bound
        simp only at taken
        split at taken
        next after closer =>
          cases taken
          have woken : Frame s { s with
              net := finishClose { s.net with awake := s.net.awake.erase (.closer 0) } 0
              closers := Function.update s.closers 0 none } :=
            ⟨rfl, rfl, rfl, fun _ there => there⟩
          refine single.frame (woken.trans (frame_afterClose .order _ 0 after)) ?_
          apply Wakeful.afterClose
          refine ⟨?_, ?_, ?_⟩
          · intro waits
            left
            have free : (s.net.pool 0).co = none := unread
            rcases wakeful.dispatch waits with awake | ⟨co, _⟩
            · exact (List.mem_erase_of_ne (by simp)).mpr awake
            · cases free.symm.trans co
          · intro is
            simp only [Function.update_self] at is
            cases is
          · intro is
            simp only [Function.update_self] at is
            cases is
        next closer =>
          cases taken
          refine ⟨⟨?_, ?_, ?_⟩, single.one, single.given⟩
          · intro waits
            exact (wakeful.dispatch waits).erase (by simp)
          · intro is
            simp only [closer] at is
            cases is
          · exact wakeful.apart

theorem Single.step {auth : Bool} {action : Action S D} (single : Single s)
    (one : OneConnection s action) (unread : Unread s action)
    (taken : step ⟨.order, auth⟩ s action = some t) : Single t := by
  have newest := single.newest one taken
  have alone := single.alone one unread taken
  have timely : ∀ k, k ∈ s.given → Timely .order s (s.dispatchers k) := by
    intro k inside
    rw [single.given] at inside
    cases inside
  have clean : Clean .order s action := by
    refine ⟨newest, ?_⟩
    cases action with
    | request response =>
      cases response with
      | none => trivial
      | some session =>
        have free : s.sessions = [] := single.stable.core.held.order rfl
        simp [free]
    | start k => exact timely k
    | loop k => exact timely k
    | resume co =>
      cases co with
      | dispatch k => exact timely k
      | closer j => trivial
    | _ => trivial
  exact ⟨single.stable.step newest taken, single.wired.step single.stable newest taken,
    single.left.step single.stable single.wired clean taken, alone.wakeful, alone.one, alone.given⟩

omit [DecidableEq S] in
theorem Single.ended (single : Single s) (lost : (s.net.pool 0).connected = false)
    (quiet : s.Quiet) : s.dispatchers 0 = .ended ∧ s.closers 0 = none := by
  obtain ⟨asleep, stopped, started⟩ := quiet
  have idle : ∀ co, ¬ Waiting s.net 0 co := by
    rintro co (awake | ⟨_, connected⟩)
    · rw [asleep] at awake
      cases awake
    · cases lost.symm.trans connected
  have ended : s.dispatchers 0 = .ended := by
    have turn := single.stable.core.turn 0
    have waits := single.wakeful.dispatch
    cases phase : s.dispatchers 0 with
    | forked => exact absurd phase (started 0 (single.forked phase))
    | loop =>
      rw [phase] at turn
      cases stopped.symm.trans (turn trivial)
    | read j popped =>
      rw [phase] at turn
      cases stopped.symm.trans (turn trivial)
    | reading j popped =>
      rw [phase] at waits
      exact absurd (waits (.inl trivial)) (idle _)
    | blocking j =>
      rw [phase] at waits
      exact absurd (waits (.inl trivial)) (idle _)
    | closing i j popped =>
      rw [phase] at waits
      exact absurd (waits (.inr trivial)) (idle _)
    | ended => rfl
  refine ⟨ended, ?_⟩
  cases closer : s.closers 0 with
  | none => rfl
  | some after =>
    rcases single.wakeful.closer (closer ▸ rfl) with waits | ⟨_, reads⟩
    · exact absurd waits (idle _)
    · rw [ended] at reads
      exact reads.elim

omit [DecidableEq S] in
theorem Single.open_ (single : Single s) {n j : Nat} (inside : (n, .socketError j) ∈ s.delivered) :
    s.sock = none := by
  have held := single.stable.core.held
  cases there : s.sock with
  | none => rfl
  | some i =>
    have last := single.stable.core.sock i there
    have zero : i = 0 := by
      have := single.one
      omega
    subst zero
    obtain ⟨response, found⟩ := held.fits n _ inside
    have asked : n ∈ s.asked 0 := by
      rw [asked_zero held single.one]
      exact List.mem_range.mpr (List.getElem?_eq_some_iff.mp found).1
    rw [← held.exact_ rfl 0 there] at asked
    rcases List.mem_append.mp asked with served | waits
    · obtain ⟨⟨co, result⟩, delivered, is⟩ := List.mem_filterMap.mp served
      have once := (List.nodup_append.mp held.once).1
      cases result with
      | reply i answer =>
        simp only [Option.ite_none_right_eq_some, Option.some.injEq] at is
        obtain ⟨rfl, rfl⟩ := is
        have both := (results_of_mem once inside).symm.trans (results_of_mem once delivered)
        cases both
      | socketError i => cases is
    · have given := List.mem_map_of_mem (f := Prod.fst) inside
      have waits : n ∈ inHand s.hand ++ s.waiting := by
        rcases List.mem_append.mp waits with hand | thread
        · exact List.mem_append_left _ hand
        · exact List.mem_append_right _ (List.mem_append_left _ thread)
      exact absurd waits (List.disjoint_of_nodup_append held.once given)

omit [DecidableEq S] in
theorem Single.matched (single : Single s) : Matched s where
  result := by
    intro n
    have held := single.stable.core.held
    have once := (List.nodup_append.mp held.once).1
    by_cases found : s.results n = []
    · exact .inl found
    · right
      obtain ⟨result, inside⟩ := mem_of_results found
      have zero := delivered_zero held single.one inside
      have results := results_of_mem once inside
      cases result with
      | reply j answer =>
        left
        cases zero
        have read : (0, some n, answer) ∈ s.replies := by
          rw [held.read rfl]
          exact List.mem_filterMap.mpr ⟨_, inside, rfl⟩
        obtain ⟨i, there⟩ := List.mem_iff_getElem?.mp read
        have same := (reply_func held single.one rfl there).2.1
        cases same
        exact ⟨answer, there, results⟩
      | socketError j =>
        right
        cases zero
        refine ⟨results, ?_, ?_⟩
        · refine Nat.le_of_not_lt fun before => ?_
          have there := List.getElem?_eq_getElem before
          have other := results_of_mem once (reply_func held single.one rfl there).2.2
          cases results.symm.trans other
        · exact single.open_ inside
  replied := by
    intro n j func answer there
    have held := single.stable.core.held
    have once := (List.nodup_append.mp held.once).1
    obtain ⟨zero, same, inside⟩ := reply_func held single.one rfl there
    exact ⟨zero, same, results_of_mem once inside⟩
  asked := by
    intro n found
    obtain ⟨result, inside⟩ := mem_of_results found
    obtain ⟨response, there⟩ := single.stable.core.held.fits n result inside
    exact (List.getElem?_eq_some_iff.mp there).1
  released := by
    intro lost quiet n bound nothing
    have held := single.stable.core.held
    obtain ⟨ended, closer⟩ := single.ended lost quiet
    obtain ⟨⟨j, response⟩, found⟩ : ∃ entry, s.registered[n]? = some entry :=
      ⟨_, List.getElem?_eq_getElem bound⟩
    have one : s.connections = 1 := by
      have := held.bound n j response found
      have := single.one
      omega
    have closed : s.sock = none := by
      cases there : s.sock with
      | none => rfl
      | some i =>
        have last := single.stable.core.sock i there
        have zero : i = 0 := by omega
        subst zero
        have attached := single.wired.attached 0 there
        rw [ended] at attached
        exact attached.elim
    have waiting : s.waiting = [] := by
      rcases single.stable.settled 0 one.symm closed with free | woken | ⟨i, j, popped, is⟩ | given
      · exact free
      · cases closer.symm.trans woken
      · cases ended.symm.trans is
      · rw [single.given] at given
        cases given
    have delivered : n ∈ s.delivered.map Prod.fst := by
      rcases held.complete n j response found with done | gone | ⟨_, waits⟩ | ⟨earlier, _⟩
      · exact done
      · rw [single.left.replaced] at gone
        cases gone
      · have hand : s.hand = none := by simp [Channel.hand, one, ended, Phase.popped]
        rw [waiting, hand] at waits
        cases waits
      · omega
    obtain ⟨⟨co, result⟩, inside, rfl⟩ := List.mem_map.mp delivered
    have once := (List.nodup_append.mp held.once).1
    rw [results_of_mem once inside] at nothing
    cases nothing

instance (s : Channel S D) : (action : Action S D) →
    Decidable (OneConnection s action ∧ Unread s action)
  | .opened => inferInstanceAs (Decidable (s.connections = 0 ∧ True))
  | .close | .changehost => inferInstanceAs (Decidable (False ∧ True))
  | .resume (.closer j) => inferInstanceAs (Decidable (True ∧ (s.net.pool j).co = none))
  | .resume (.dispatch _) | .connect | .reopen | .notOpened | .authEnd _ | .request _ | .writeFails
  | .data _ _ | .disconnect _ | .start _ | .loop _ => .isTrue ⟨trivial, trivial⟩

theorem replies_match (auth : Bool) (actions : List (Action S D)) (s : Channel S D)
    (unread : Transition.Along (step ⟨.order, auth⟩)
      (fun s action => OneConnection s action ∧ Unread s action) .start actions)
    (reached : Transition.run (step ⟨.order, auth⟩) .start actions = some s) : Matched s := by
  have path := Transition.Path.of_run actions (.refl Channel.start) unread reached
  have single : Single s := path.invariant Single
    (fun _ _ _ single allow taken => single.step allow.1 allow.2 taken) start_single
  exact single.matched

def lostBeforeReply : List (Action Nat Nat) :=
  [.connect, .opened, .request none, .request none, .start 0, .loop 0, .data 0 .part,
    .resume (.dispatch 0), .loop 0, .data 0 (.last ⟨none, true, 7⟩), .resume (.dispatch 0), .loop 0,
    .disconnect 0, .resume (.dispatch 0), .loop 0]

theorem lost_before_reply_matched :
    ∃ s, Transition.run (step ⟨.order, false⟩) .start lostBeforeReply = some s ∧ Matched s :=
  ⟨_, rfl, replies_match false lostBeforeReply _ (by decide) rfl⟩

theorem failed_write_leaves_waiter :
    ∃ s, Transition.run (step ⟨.order, false⟩) (.start : Channel Nat Nat)
        [.connect, .opened, .request none, .start 0, .loop 0, .writeFails, .data 0 .part,
          .resume (.dispatch 0), .loop 0, .resume (.closer 0)] = some s ∧
      ¬ Matched s := by
  refine ⟨_, rfl, ?_⟩
  intro matched
  exact matched.released (by decide) ⟨by decide, by decide, by decide⟩ 0 (by decide) (by decide)

end Pskynet.Socketchannel
