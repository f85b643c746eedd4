import Pskynet.Shared.Transition
import Pskynet.Datacenter.WaitQueue

set_option autoImplicit false

namespace Pskynet.Datacenter

inductive Answer where
  | value (value : Value)
  | error

abbrev Path := List Key

structure Center where
  database : Fields
  waitQueue : Entries
  served : Nat
  answers : List (Nat × Answer)

namespace Center

def start : Center where
  database := fun _ => .nil
  waitQueue := fun _ => none
  served := 0
  answers := []

def answer (s : Center) (responses : List Nat) (answer : Answer) : Center :=
  { s with answers := s.answers ++ responses.map fun response => (response, answer) }

-- An error in the database's own update gives none.
def update (s : Center) (key : Key) (rest : List Key) (value : Value) : Option Center :=
  (Datacenter.update s.database key rest value).map fun (database, ret) =>
    let s := { s with database := database }
    if ret.truthy ∨ value.isNil then s
    else
      let (waitQueue, wakes) := wakeup s.waitQueue ((key :: rest).map Value.ofKey ++ [value])
      let s := { s with waitQueue := waitQueue }
      match wakes with
      | .nothing => s
      | .broken q => s.answer q .error
      | .woken q => s.answer q (.value value)

def wait (s : Center) (key : Key) (rest : List Key) : Center :=
  let t := { s with served := s.served + 1 }
  match queryCommand s.database (key :: rest) with
  | none => t.answer [s.served] .error
  | some ret =>
      if ret.truthy then t.answer [s.served] (.value ret)
      else
        match waitfor s.waitQueue key rest s.served with
        | some waitQueue => { t with waitQueue := waitQueue }
        | none => t.answer [s.served] .error

end Center

structure Board where
  pending : List (Nat × Path)
  waited : List Path
  answers : List (Nat × Answer)

namespace Board

def start : Board where
  pending := []
  waited := []
  answers := []

def due (b : Board) (after : Fields) : List (Nat × Path) :=
  b.pending.filter fun waiter => !(valueAt (.table after) waiter.2).isNil

def update (b : Board) (after : Fields) (path : Path) : Board :=
  { b with
    pending := b.pending.filter fun waiter => (valueAt (.table after) waiter.2).isNil
    answers := b.answers ++ (b.due after).map fun waiter =>
      (waiter.1, if waiter.2 <+: path ∧ waiter.2 ≠ path then .error
        else .value (valueAt (.table after) waiter.2)) }

def wait (b : Board) (database : Fields) (response : Nat) (path : Path) : Board :=
  if (valueAt (.table database) path).isNil then
    { b with
      pending := b.pending ++ [(response, path)]
      waited := b.waited ++ [path] }
  else
    { b with
      waited := b.waited ++ [path]
      answers := b.answers ++ [(response, .value (valueAt (.table database) path))] }

end Board

inductive Command where
  | update (key : Key) (rest : List Key) (value : Value)
  | wait (key : Key) (rest : List Key)

structure Session where
  center : Center
  board : Board

def apart (path other : Path) : Prop := (path <+: other → path = other) ∧ (other <+: path → other = path)

instance (path other : Path) : Decidable (apart path other) := instDecidableAnd

namespace Session

def start : Session where
  center := .start
  board := .start

-- A path leads through absent fields and tables, and what is waited for is not part of a path that
-- is waited for.
def step (s : Session) : Command → Option Session
  | .update key rest value =>
      if passes (.table s.center.database) (key :: rest) then
        (s.center.update key rest value).map fun center =>
          { center := center
            board := s.board.update center.database (key :: rest) }
      else none
  | .wait key rest =>
      if passes (.table s.center.database) (key :: rest) ∧
          ∀ path ∈ s.board.waited, apart path (key :: rest) then
        some {
          center := s.center.wait key rest
          board := s.board.wait s.center.database s.center.served (key :: rest) }
      else none

structure Answered (s : Session) : Prop where
  answers : s.center.answers.Perm s.board.answers
  once : (s.board.pending.map Prod.fst ++ s.center.answers.map Prod.fst).Perm
    (List.range s.center.served)
  absent : ∀ waiter ∈ s.board.pending, valueAt (.table s.center.database) waiter.2 = .nil

-- A WAIT is not for the value false and does not look for a field of a missing field; an UPDATE
-- does not give a value to someone who waits further down, does not create the tables on its way
-- for nothing where someone waits, and its value is not the key for which someone waits below.
def Direct (s : Session) : Command → Prop
  | .wait key rest =>
      valueAt (.table s.center.database) (key :: rest) ≠ .scalar (.boolean false) ∧
        ¬Missing s.center.database (key :: rest)
  | .update key rest value =>
      (∀ waiter ∈ s.board.pending, ∀ below, below ≠ [] → waiter.2 = key :: rest ++ below →
        valueAt value below = .nil) ∧
      (value = .nil → ∀ waiter ∈ s.board.pending, waiter.2 <+: key :: rest →
        waiter.2 = key :: rest) ∧
      ((valueAt (.table s.center.database) (key :: rest)).truthy = false →
        ∀ k, value.asKey = some k → ∀ waiter ∈ s.board.pending, waiter.2 ≠ key :: rest ++ [k])

structure Tracked (s : Session) : Prop where
  answered : Answered s
  queues : ∀ path, responsesAt s.center.waitQueue path =
    (s.board.pending.filter (·.2 = path)).map Prod.fst
  leaves : ∀ path responses, peek s.center.waitQueue path = some (.queue responses) →
    path ∈ s.board.waited
  branches : ∀ path, path ≠ [] → peek s.center.waitQueue path = some .branch →
    ∃ below, below ≠ [] ∧ path ++ below ∈ s.board.waited
  waited : ∀ waiter ∈ s.board.pending, waiter.2 ∈ s.board.waited
  separate : ∀ path ∈ s.board.waited, ∀ other ∈ s.board.waited, path <+: other → path = other

theorem start_tracked : Tracked start := by
  refine ⟨⟨.refl _, .refl _, ?_⟩, ?_, ?_, ?_, ?_, ?_⟩
  · intro waiter inside
    cases inside
  · intro path
    cases path <;> rfl
  · intro path responses found
    cases path <;> cases found
  · intro path some_ found
    rw [show peek start.center.waitQueue path = none from peek_empty path some_] at found
    cases found
  · intro waiter inside
    cases inside
  · intro path inside
    cases inside

variable {s t : Session}

theorem Answered.nodup (answered : Answered s) :
    (s.board.pending.map Prod.fst ++ s.center.answers.map Prod.fst).Nodup :=
  answered.once.nodup_iff.mpr List.nodup_range

theorem Answered.unanswered (answered : Answered s) {waiter : Nat × Path}
    (pending : waiter ∈ s.board.pending) (answer : Answer) :
    (waiter.1, answer) ∉ s.center.answers := by
  intro inside
  exact (List.nodup_append.mp answered.nodup).2.2 _ (List.mem_map_of_mem pending) _
    (List.mem_map_of_mem inside) rfl

theorem Answered.unique (answered : Answered s) {waiter other : Nat × Path}
    (pending : waiter ∈ s.board.pending) (also : other ∈ s.board.pending)
    (same : waiter.1 = other.1) : waiter = other :=
  List.inj_on_of_nodup_map (List.nodup_append.mp answered.nodup).1 pending also same

theorem Tracked.peek_pending (tracked : Tracked s) {waiter : Nat × Path}
    (pending : waiter ∈ s.board.pending) :
    peek s.center.waitQueue waiter.2 = some (.queue (responsesAt s.center.waitQueue waiter.2)) := by
  have inside : waiter.1 ∈ responsesAt s.center.waitQueue waiter.2 := by
    rw [tracked.queues]
    exact List.mem_map_of_mem (List.mem_filter.mpr ⟨pending, decide_eq_true rfl⟩)
  unfold responsesAt at inside ⊢
  cases found : peek s.center.waitQueue waiter.2 with
  | none =>
    rw [found] at inside
    cases inside
  | some node =>
    cases node with
    | branch =>
      rw [found] at inside
      cases inside
    | queue responses => rfl

theorem Tracked.responses (tracked : Tracked s) {path : Path} {responses : List Nat}
    (found : peek s.center.waitQueue path = some (.queue responses)) :
    responses = (s.board.pending.filter (·.2 = path)).map Prod.fst := by
  rw [← tracked.queues]
  unfold responsesAt
  rw [found]

theorem Tracked.mem_responses (tracked : Tracked s) {path : Path} {responses : List Nat}
    (found : peek s.center.waitQueue path = some (.queue responses)) {response : Nat}
    (inside : response ∈ responses) :
    ∃ waiter ∈ s.board.pending, waiter.1 = response ∧ waiter.2 = path := by
  rw [tracked.responses found] at inside
  obtain ⟨waiter, kept, is⟩ := List.mem_map.mp inside
  obtain ⟨pending, same⟩ := List.mem_filter.mp kept
  exact ⟨waiter, pending, is, of_decide_eq_true same⟩

/-! ## WAIT -/

theorem board_wait_found (b : Board) (database : Fields) (response : Nat) (path : Path)
    (found : valueAt (.table database) path ≠ .nil) :
    b.wait database response path =
      { b with
        waited := b.waited ++ [path]
        answers := b.answers ++ [(response, .value (valueAt (.table database) path))] } := by
  rw [Board.wait, if_neg (mt (Value.isNil_iff _).mp found)]

theorem board_wait_missing (b : Board) (database : Fields) (response : Nat) (path : Path)
    (missing : valueAt (.table database) path = .nil) :
    b.wait database response path =
      { b with
        pending := b.pending ++ [(response, path)]
        waited := b.waited ++ [path] } := by
  rw [Board.wait, if_pos ((Value.isNil_iff _).mpr missing)]

theorem separate_wait (tracked : Tracked s) {path : Path}
    (fresh : ∀ other ∈ s.board.waited, apart other path) :
    ∀ first ∈ s.board.waited ++ [path], ∀ second ∈ s.board.waited ++ [path],
      first <+: second → first = second := by
  intro first one second two inside
  rcases List.mem_append.mp one with old | last
  · rcases List.mem_append.mp two with also | new_
    · exact tracked.separate first old second also inside
    · rw [List.mem_singleton.mp new_] at inside ⊢
      exact (fresh first old).1 inside
  · rw [List.mem_singleton.mp last] at inside ⊢
    rcases List.mem_append.mp two with also | new_
    · exact (fresh second also).2 inside
    · exact (List.mem_singleton.mp new_).symm

theorem Tracked.waitfor (tracked : Tracked s) {key : Key} {rest : List Key}
    (fresh : ∀ other ∈ s.board.waited, apart other (key :: rest)) :
    ∃ after, waitfor s.center.waitQueue key rest s.center.served = some after ∧
      peek after (key :: rest) =
        some (.queue (responsesAt s.center.waitQueue (key :: rest) ++ [s.center.served])) ∧
      (∀ above below, key :: rest = above ++ below → below ≠ [] →
        peek after above = some .branch) ∧
      ∀ path, ¬path <+: key :: rest → peek after path = peek s.center.waitQueue path := by
  refine waitfor_spec s.center.waitQueue key rest s.center.served ?_ ?_
  · intro above below split some_ responses found
    have old := tracked.leaves above responses found
    have same := (fresh above old).1 ⟨below, split.symm⟩
    rw [same] at split
    exact some_ (List.self_eq_append_right.mp split)
  · intro found
    obtain ⟨below, some_, old⟩ := tracked.branches _ (List.cons_ne_nil _ _) found
    have same := (fresh _ old).2 (List.prefix_append _ _)
    exact some_ (List.self_eq_append_right.mp same)

theorem wait_found (tracked : Tracked s) {key : Key} {rest : List Key}
    (pass : passes (.table s.center.database) (key :: rest) = true)
    (fresh : ∀ path ∈ s.board.waited, apart path (key :: rest))
    (found : (valueAt (.table s.center.database) (key :: rest)).truthy = true) :
    Tracked {
      center := s.center.wait key rest
      board := s.board.wait s.center.database s.center.served (key :: rest) } := by
  have here := ((Value.truthy_iff _).mp found).1
  have done : s.center.wait key rest =
      Center.answer { s.center with served := s.center.served + 1 } [s.center.served]
        (.value (valueAt (.table s.center.database) (key :: rest))) := by
    simp only [Center.wait, queryCommand_found _ _ (List.cons_ne_nil _ _) pass found, found, if_true]
  rw [done, board_wait_found _ _ _ _ here]
  refine ⟨⟨?_, ?_, tracked.answered.absent⟩, tracked.queues, ?_, ?_, ?_, separate_wait tracked fresh⟩
  · exact tracked.answered.answers.append (.refl _)
  · simp only [Center.answer, List.map_append, List.range_succ, ← List.append_assoc]
    exact tracked.answered.once.append (.refl _)
  · intro path responses leaf
    exact List.mem_append_left _ (tracked.leaves path responses leaf)
  · intro path some_ branch
    obtain ⟨below, more, old⟩ := tracked.branches path some_ branch
    exact ⟨below, more, List.mem_append_left _ old⟩
  · intro waiter pending
    exact List.mem_append_left _ (tracked.waited waiter pending)

theorem wait_missing (tracked : Tracked s) {key : Key} {rest : List Key}
    (pass : passes (.table s.center.database) (key :: rest) = true)
    (fresh : ∀ path ∈ s.board.waited, apart path (key :: rest))
    (missing : valueAt (.table s.center.database) (key :: rest) = .nil)
    (present : ¬Missing s.center.database (key :: rest)) :
    Tracked {
      center := s.center.wait key rest
      board := s.board.wait s.center.database s.center.served (key :: rest) } := by
  obtain ⟨ret, queried, unfound⟩ := queryCommand_unfound _ _ pass present (by
    intro _
    rw [missing]
    rfl)
  obtain ⟨after, waiting, last, above, others⟩ := tracked.waitfor fresh
  have done : s.center.wait key rest =
      { s.center with served := s.center.served + 1, waitQueue := after } := by
    simp only [Center.wait, queried, unfound, waiting, Bool.false_eq_true, if_false]
  rw [done, board_wait_missing _ _ _ _ missing]
  refine ⟨⟨tracked.answered.answers, ?_, ?_⟩, ?_, ?_, ?_, ?_, separate_wait tracked fresh⟩
  · simp only [List.map_append, List.map_singleton, List.range_succ, List.append_assoc]
    refine .trans (List.Perm.append_left _ List.perm_append_comm) ?_
    rw [← List.append_assoc]
    exact tracked.answered.once.append (.refl _)
  · intro waiter pending
    rcases List.mem_append.mp pending with old | new_
    · exact tracked.answered.absent waiter old
    · rw [List.mem_singleton.mp new_]
      exact missing
  · intro path
    rw [List.filter_append, List.map_append, ← tracked.queues]
    by_cases same : key :: rest = path
    · subst same
      simp [responsesAt, last]
    · have kept : responsesAt after path = responsesAt s.center.waitQueue path := by
        by_cases inside : path <+: key :: rest
        · obtain ⟨below, split⟩ := inside
          have some_ : below ≠ [] := by
            intro empty
            rw [empty, List.append_nil] at split
            exact same split.symm
          have branch := above path below split.symm some_
          cases before : peek s.center.waitQueue path with
          | none => simp [responsesAt, branch, before]
          | some node =>
            cases node with
            | branch => simp [responsesAt, branch, before]
            | queue responses =>
              have old := tracked.leaves path responses before
              exact absurd ((fresh path old).1 ⟨below, split⟩).symm same
        · simp only [responsesAt, others path inside]
      simp [kept, same]
  · intro path responses leaf
    by_cases inside : path <+: key :: rest
    · obtain ⟨below, split⟩ := inside
      by_cases some_ : below = []
      · rw [some_, List.append_nil] at split
        exact List.mem_append_right _ (split ▸ List.mem_singleton_self _)
      · cases leaf.symm.trans (above path below split.symm some_)
    · rw [others path inside] at leaf
      exact List.mem_append_left _ (tracked.leaves path responses leaf)
  · intro path some_ branch
    by_cases inside : path <+: key :: rest
    · obtain ⟨below, split⟩ := inside
      by_cases more : below = []
      · rw [more, List.append_nil] at split
        rw [split] at branch
        cases branch.symm.trans last
      · exact ⟨below, more, List.mem_append_right _ (split ▸ List.mem_singleton_self _)⟩
    · rw [others path inside] at branch
      obtain ⟨below, more, old⟩ := tracked.branches path some_ branch
      exact ⟨below, more, List.mem_append_left _ old⟩
  · intro waiter pending
    rcases List.mem_append.mp pending with old | new_
    · exact List.mem_append_left _ (tracked.waited waiter old)
    · rw [List.mem_singleton.mp new_]
      exact List.mem_append_right _ (List.mem_singleton_self _)

theorem missing_absent {database : Fields} {path : Path} (missing : Missing database path) :
    valueAt (.table database) path = .nil := by
  cases path with
  | nil => exact absurd missing not_false
  | cons key rest =>
    obtain ⟨_, more, missing⟩ := missing
    by_contra found
    exact valueAt_dropLast more found missing

theorem wait_direct (tracked : Tracked s) {key : Key} {rest : List Key}
    (pass : passes (.table s.center.database) (key :: rest) = true)
    (fresh : ∀ path ∈ s.board.waited, apart path (key :: rest))
    (answers : (s.center.wait key rest).answers.Perm
      (s.board.wait s.center.database s.center.served (key :: rest)).answers) :
    Direct s (.wait key rest) := by
  have old := tracked.answered.answers
  constructor
  · intro false_
    have here : valueAt (.table s.center.database) (key :: rest) ≠ .nil := by
      rw [false_]
      exact fun is => by cases is
    obtain ⟨ret, queried, unfound⟩ := queryCommand_unfound _ _ pass
      (fun missing => here (missing_absent missing)) (by
        intro _
        rw [false_]
        rfl)
    obtain ⟨after, waiting, _⟩ := tracked.waitfor fresh
    have done : (s.center.wait key rest).answers = s.center.answers := by
      simp only [Center.wait, queried, unfound, waiting, Bool.false_eq_true, if_false]
    rw [done, board_wait_found _ _ _ _ here] at answers
    have longer := answers.length_eq
    simp only [List.length_append, List.length_singleton, old.length_eq] at longer
    omega
  · intro missing
    have done : (s.center.wait key rest).answers =
        s.center.answers ++ [(s.center.served, .error)] := by
      simp only [Center.wait, queryCommand_missing _ _ pass missing, Center.answer, List.map_cons,
        List.map_nil]
    rw [done, board_wait_missing _ _ _ _ (missing_absent missing)] at answers
    have longer := answers.length_eq
    simp only [List.length_append, List.length_singleton, old.length_eq] at longer
    omega

/-! ## UPDATE -/

inductive Effect (after : Fields) (path : Path) (value : Value) (waiting : Path) : Prop where
  | below (rest : Path) (some_ : rest ≠ []) (split : waiting = path ++ rest)
      (is : valueAt (.table after) waiting = valueAt value rest)
  | here (same : waiting = path) (is : valueAt (.table after) waiting = value)
  | above (rest : Path) (some_ : rest ≠ []) (split : path = waiting ++ rest)
      (found : valueAt (.table after) waiting ≠ .nil)
  | beside (outside : ¬path <+: waiting) (inside : ¬waiting <+: path)
      (missing : valueAt (.table after) waiting = .nil)

theorem effect (tracked : Tracked s) {key : Key} {rest : List Key} {value : Value} {after : Fields}
    (set : ∀ below, valueAt (.table after) (key :: rest ++ below) = valueAt value below)
    (above : ∀ above below, key :: rest = above ++ below → below ≠ [] →
      valueAt (.table after) above ≠ .nil)
    (others : ∀ path, ¬key :: rest <+: path → ¬path <+: key :: rest →
      valueAt (.table after) path = valueAt (.table s.center.database) path)
    {waiter : Nat × Path} (pending : waiter ∈ s.board.pending) :
    Effect after (key :: rest) value waiter.2 := by
  by_cases outside : key :: rest <+: waiter.2
  · obtain ⟨below, split⟩ := outside
    by_cases more : below = []
    · rw [more, List.append_nil] at split
      refine .here split.symm ?_
      rw [← split, ← List.append_nil (key :: rest), set, valueAt_nil]
    · exact .below below more split.symm (by rw [← split, set])
  · by_cases inside : waiter.2 <+: key :: rest
    · obtain ⟨below, split⟩ := inside
      have more : below ≠ [] := by
        intro empty
        rw [empty, List.append_nil] at split
        exact outside (split ▸ List.prefix_rfl)
      exact .above below more split.symm (above _ below split.symm more)
    · refine .beside outside inside ?_
      rw [others _ outside inside]
      exact tracked.answered.absent waiter pending

theorem update_once (b : Board) (after : Fields) (path : Path) :
    ((b.update after path).pending.map Prod.fst ++ (b.update after path).answers.map Prod.fst).Perm
      (b.pending.map Prod.fst ++ b.answers.map Prod.fst) := by
  have split := List.filter_append_perm
    (fun waiter : Nat × Path => (valueAt (.table after) waiter.2).isNil) b.pending
  have whole := split.map Prod.fst
  simp only [Board.update, Board.due, List.map_append, List.map_map] at whole ⊢
  refine .trans ?_ (whole.append_right (b.answers.map Prod.fst))
  rw [List.append_assoc]
  exact List.Perm.append_left _ List.perm_append_comm

theorem update_takes (tracked : Tracked s) (after : Fields) (path : Path) (waitQueue : Entries)
    (above : Path) (responses : List Nat) (answer : Answer)
    (taken : responses = (s.board.pending.filter (·.2 = above)).map Prod.fst)
    (peeks : ∀ path, peek waitQueue path =
      if path = above then none else peek s.center.waitQueue path)
    (due : ∀ waiter ∈ s.board.pending,
      valueAt (.table after) waiter.2 ≠ .nil ↔ waiter.2 = above)
    (right : ∀ waiter ∈ s.board.pending, waiter.2 = above →
      (if above <+: path ∧ above ≠ path then Answer.error
        else .value (valueAt (.table after) above)) = answer) :
    Tracked {
      center := Center.answer { s.center with database := after, waitQueue := waitQueue }
        responses answer
      board := s.board.update after path } := by
  have out : s.board.due after = s.board.pending.filter (·.2 = above) := by
    refine List.filter_congr ?_
    intro waiter pending
    rw [Bool.eq_iff_iff, decide_eq_true_eq, ← due waiter pending, ne_eq, ← Value.isNil_iff]
    simp
  have left : (s.board.update after path).pending =
      s.board.pending.filter fun waiter => ¬waiter.2 = above := by
    refine List.filter_congr ?_
    intro waiter pending
    rw [Bool.eq_iff_iff, decide_eq_true_eq, ← due waiter pending, Value.isNil_iff, not_not]
  have same : (responses.map fun response => (response, answer)) =
      (s.board.due after).map fun waiter =>
        (waiter.1, if waiter.2 <+: path ∧ waiter.2 ≠ path then Answer.error
          else .value (valueAt (.table after) waiter.2)) := by
    rw [out, taken, List.map_map]
    refine List.map_congr_left ?_
    intro waiter kept
    obtain ⟨pending, is⟩ := List.mem_filter.mp kept
    rw [decide_eq_true_eq] at is
    rw [Function.comp_apply, is, right waiter pending is]
  have answers : (s.center.answers ++ responses.map fun response => (response, answer)).Perm
      (s.board.update after path).answers := by
    rw [same]
    exact tracked.answered.answers.append (.refl _)
  refine ⟨⟨answers, ?_, ?_⟩, ?_, ?_, ?_, ?_, tracked.separate⟩
  · refine .trans ?_ tracked.answered.once
    refine .trans ((answers.map Prod.fst).append_left _) ?_
    refine .trans (update_once s.board after path) ?_
    exact (tracked.answered.answers.symm.map Prod.fst).append_left _
  · intro waiter pending
    rw [left] at pending
    obtain ⟨old, apart_⟩ := List.mem_filter.mp pending
    rw [decide_eq_true_eq, ← due waiter old, not_not] at apart_
    exact apart_
  · intro other
    rw [left, List.filter_filter]
    change responsesAt waitQueue other = _
    by_cases gone : other = above
    · subst gone
      have none_ : (s.board.pending.filter fun waiter =>
          decide (waiter.2 = other) && decide ¬waiter.2 = other) = [] := by
        rw [List.filter_eq_nil_iff]
        intro waiter _
        simp
      rw [none_, responsesAt, peeks, if_pos rfl]
      rfl
    · have kept : responsesAt waitQueue other = responsesAt s.center.waitQueue other := by
        unfold responsesAt
        rw [peeks, if_neg gone]
      rw [kept, tracked.queues]
      congr 1
      refine List.filter_congr ?_
      intro waiter _
      by_cases is : waiter.2 = other
      · simp [is, gone]
      · simp [is]
  · intro other responses leaf
    change peek waitQueue other = _ at leaf
    rw [peeks] at leaf
    split_ifs at leaf
    exact tracked.leaves other responses leaf
  · intro other some_ branch
    change peek waitQueue other = _ at branch
    rw [peeks] at branch
    split_ifs at branch
    exact tracked.branches other some_ branch
  · intro waiter pending
    exact tracked.waited waiter (List.mem_of_mem_filter pending)

theorem update_silent (tracked : Tracked s) (after : Fields) (path : Path) (waitQueue : Entries)
    (peeks : ∀ path, peek waitQueue path = peek s.center.waitQueue path)
    (missing : ∀ waiter ∈ s.board.pending, valueAt (.table after) waiter.2 = .nil) :
    Tracked {
      center := { s.center with database := after, waitQueue := waitQueue }
      board := s.board.update after path } := by
  have out : s.board.due after = [] := by
    rw [Board.due, List.filter_eq_nil_iff]
    intro waiter pending
    simp [(Value.isNil_iff _).mpr (missing waiter pending)]
  have left : (s.board.update after path).pending = s.board.pending := by
    refine List.filter_eq_self.mpr ?_
    intro waiter pending
    exact (Value.isNil_iff _).mpr (missing waiter pending)
  have answers : (s.board.update after path).answers = s.board.answers := by
    simp [Board.update, out]
  refine ⟨⟨?_, ?_, ?_⟩, ?_, ?_, ?_, ?_, tracked.separate⟩
  · rw [answers]
    exact tracked.answered.answers
  · rw [left]
    exact tracked.answered.once
  · rw [left]
    exact missing
  · intro other
    rw [left, ← tracked.queues, responsesAt, responsesAt, peeks]
  · intro other responses leaf
    exact tracked.leaves other responses (peeks other ▸ leaf)
  · intro other some_ branch
    exact tracked.branches other some_ (peeks other ▸ branch)
  · rw [left]
    exact tracked.waited

def wakes (s : Center) (after : Fields) (path : Path) (value ret : Value) : Center :=
  let s := { s with database := after }
  if ret.truthy ∨ value.isNil then s
  else
    let (waitQueue, wakes) := wakeup s.waitQueue (path.map Value.ofKey ++ [value])
    let s := { s with waitQueue := waitQueue }
    match wakes with
    | .nothing => s
    | .broken q => s.answer q .error
    | .woken q => s.answer q (.value value)

theorem route_value (path : Path) (value : Value) :
    route (path.map Value.ofKey ++ [value]) = path ++ value.asKey.toList := by
  rw [route_append]
  cases is : value.asKey <;> simp [route, is]

theorem prefix_route {path above : Path} {key : Option Key} (onRoute : above <+: path ++ key.toList) :
    above <+: path ∨ ∃ k, key = some k ∧ above = path ++ [k] := by
  cases key with
  | none => exact .inl (by simpa using onRoute)
  | some k =>
    rcases List.prefix_concat_iff.mp onRoute with h | h
    · exact .inr ⟨k, rfl, h⟩
    · exact .inl h

theorem update_tracked (tracked : Tracked s) {key : Key} {rest : List Key} {value : Value}
    {after : Fields} (direct : Direct s (.update key rest value))
    (effects : ∀ waiter ∈ s.board.pending, Effect after (key :: rest) value waiter.2) :
    Tracked {
      center := wakes s.center after (key :: rest) value
        (valueAt (.table s.center.database) (key :: rest))
      board := s.board.update after (key :: rest) } := by
  obtain ⟨below, created, confused⟩ := direct
  unfold wakes
  simp only
  split_ifs with quiet
  · refine update_silent tracked after (key :: rest) s.center.waitQueue (fun _ => rfl) ?_
    intro waiter pending
    have absent := tracked.answered.absent waiter pending
    cases effects waiter pending with
    | below rest' some_ split is => rw [is, below waiter pending rest' some_ split]
    | here same is =>
      rcases quiet with ret | none_
      · rw [← same, absent] at ret
        cases ret
      · rw [is, (Value.isNil_iff _).mp none_]
    | above rest' some_ split found =>
      exfalso
      rcases quiet with ret | none_
      · rw [split, valueAt_append, absent, valueAt_absent] at ret
        cases ret
      · have same := created ((Value.isNil_iff _).mp none_) waiter pending ⟨rest', split.symm⟩
        rw [same] at split
        exact some_ (List.self_eq_append_right.mp split)
    | beside outside inside missing => exact missing
  · have some_ : value ≠ .nil := fun none_ => quiet (.inr ((Value.isNil_iff _).mpr none_))
    have ret : (valueAt (.table s.center.database) (key :: rest)).truthy = false :=
      Bool.eq_false_iff.mpr fun ret => quiet (.inl ret)
    have args : ((key :: rest).map Value.ofKey ++ [value]).length = (key :: rest).length + 1 := by
      rw [List.length_append, List.length_map, List.length_singleton]
    have spec := wakeup_spec s.center.waitQueue ((key :: rest).map Value.ofKey ++ [value])
    generalize wakeup s.center.waitQueue ((key :: rest).map Value.ofKey ++ [value]) = result at spec ⊢
    obtain ⟨waitQueue, wakes⟩ := result
    cases spec with
    | misses free nothing after' =>
      simp only at nothing
      subst nothing
      rw [route_value] at free
      refine update_silent tracked after (key :: rest) waitQueue after' ?_
      intro waiter pending
      have queue := tracked.peek_pending pending
      cases effects waiter pending with
      | below rest' some_ split is => rw [is, below waiter pending rest' some_ split]
      | here same is => exact absurd queue (free _ _ (by rw [same]) _)
      | above rest' some_ split found =>
        exact absurd queue (free _ (rest' ++ value.asKey.toList)
          (by rw [← List.append_assoc, ← split]) _)
      | beside outside inside missing => exact missing
    | takes above low responses split found wakes_ after' =>
      rw [route_value] at split
      have leaf := tracked.leaves above responses found
      have onRoute : above <+: key :: rest ++ value.asKey.toList := ⟨low, split.symm⟩
      have same {waiter : Nat × Path} (pending : waiter ∈ s.board.pending)
          (inside : waiter.2 <+: key :: rest) : waiter.2 = above := by
        have also := inside.trans (List.prefix_append _ value.asKey.toList)
        have waited := tracked.waited waiter pending
        rcases List.prefix_or_prefix_of_prefix also onRoute with h | h
        · exact tracked.separate _ waited _ leaf h
        · exact (tracked.separate _ leaf _ waited h).symm
      have within {waiter : Nat × Path} (pending : waiter ∈ s.board.pending)
          (is : waiter.2 = above) : above <+: key :: rest := by
        rcases prefix_route onRoute with h | ⟨k, asKey, h⟩
        · exact h
        · exact absurd (is.trans h) (confused ret k asKey waiter pending)
      have due : ∀ waiter ∈ s.board.pending,
          valueAt (.table after) waiter.2 ≠ .nil ↔ waiter.2 = above := by
        intro waiter pending
        constructor
        · intro due
          cases effects waiter pending with
          | below rest' more split is => exact absurd (is.trans (below waiter pending rest' more split)) due
          | here is _ => exact same pending (is ▸ List.prefix_rfl)
          | above rest' more split _ => exact same pending ⟨rest', split.symm⟩
          | beside outside inside missing => exact absurd missing due
        · intro is
          have inside := within pending is
          cases effects waiter pending with
          | below rest' more split _ =>
            rw [is] at split
            rw [split] at inside
            have longer := inside.length_le
            rw [List.length_append] at longer
            exact absurd (List.eq_nil_of_length_eq_zero (by omega)) more
          | here _ value => rw [value]; exact some_
          | above _ _ _ found => exact found
          | beside _ outside _ => exact absurd (is ▸ inside) outside
      rw [args] at wakes_
      by_cases exact_ : above = key :: rest
      · subst exact_
        simp only [ne_eq, not_true_eq_false, if_false] at wakes_
        subst wakes_
        refine update_takes tracked after _ waitQueue _ responses _ (tracked.responses found) after'
          due ?_
        intro waiter pending is
        rw [if_neg fun h => h.2 rfl]
        cases effects waiter pending with
        | here _ value => rw [← is, value]
        | below rest' more split _ => exact absurd (List.self_eq_append_right.mp (is.symm.trans split)) more
        | above rest' more split _ =>
          rw [is] at split
          exact absurd (List.self_eq_append_right.mp split) more
        | beside outside _ _ => exact absurd (is ▸ List.prefix_rfl) outside
      · have other : (key :: rest).length ≠ above.length := by
          rcases prefix_route onRoute with h | ⟨k, _, h⟩
          · exact fun length => exact_ (h.eq_of_length length.symm)
          · rw [h, List.length_append, List.length_singleton]
            omega
        rw [if_pos (by omega)] at wakes_
        subst wakes_
        refine update_takes tracked after _ waitQueue _ responses _ (tracked.responses found) after'
          due ?_
        intro waiter pending is
        rw [if_pos ⟨within pending is, exact_⟩]

theorem wakes_answers (s : Center) (after : Fields) (path : Path) (value ret : Value) :
    ∃ responses answer, (wakes s after path value ret).answers =
        s.answers ++ responses.map (fun response => (response, answer)) ∧
      (responses = [] ∧ (ret.truthy = true ∨ value = .nil ∨
          ∀ above, above <+: path ++ value.asKey.toList →
            ∀ responses, peek s.waitQueue above ≠ some (.queue responses)) ∨
        value ≠ .nil ∧ ∃ above, above <+: path ++ value.asKey.toList ∧
          peek s.waitQueue above = some (.queue responses) ∧
          (above.length ≠ path.length → answer = .error)) := by
  unfold wakes
  simp only
  split_ifs with quiet
  · refine ⟨[], .error, (List.append_nil _).symm, .inl ⟨rfl, ?_⟩⟩
    rcases quiet with ret | none_
    · exact .inl ret
    · exact .inr (.inl ((Value.isNil_iff _).mp none_))
  · have some_ : value ≠ .nil := fun none_ => quiet (.inr ((Value.isNil_iff _).mpr none_))
    have spec := wakeup_spec s.waitQueue (path.map Value.ofKey ++ [value])
    generalize wakeup s.waitQueue (path.map Value.ofKey ++ [value]) = result at spec ⊢
    obtain ⟨waitQueue, wakes⟩ := result
    cases spec with
    | misses free nothing _ =>
      simp only at nothing
      subst nothing
      rw [route_value] at free
      refine ⟨[], .error, (List.append_nil _).symm, .inl ⟨rfl, .inr (.inr ?_)⟩⟩
      rintro above ⟨below, split⟩
      exact free above below split.symm
    | takes above below responses split found wakes_ _ =>
      rw [route_value] at split
      rw [List.length_append, List.length_map, List.length_singleton] at wakes_
      by_cases exact_ : path.length = above.length
      · rw [if_neg (by omega)] at wakes_
        simp only at wakes_
        subst wakes_
        exact ⟨responses, .value value, rfl, .inr ⟨some_, above, ⟨below, split.symm⟩, found,
          fun other => absurd exact_.symm other⟩⟩
      · rw [if_pos (by omega)] at wakes_
        simp only at wakes_
        subst wakes_
        exact ⟨responses, .error, rfl, .inr ⟨some_, above, ⟨below, split.symm⟩, found, fun _ => rfl⟩⟩

theorem update_direct (tracked : Tracked s) {key : Key} {rest : List Key} {value : Value}
    {after : Fields}
    (effects : ∀ waiter ∈ s.board.pending, Effect after (key :: rest) value waiter.2)
    (answers : (wakes s.center after (key :: rest) value
      (valueAt (.table s.center.database) (key :: rest))).answers.Perm
        (s.board.update after (key :: rest)).answers) :
    Direct s (.update key rest value) := by
  obtain ⟨responses, answer, is, from_⟩ := wakes_answers s.center after (key :: rest) value
    (valueAt (.table s.center.database) (key :: rest))
  rw [is] at answers
  have new_ := (List.perm_append_left_iff _).mp
    ((tracked.answered.answers.append_right _).symm.trans answers)
  have answered {waiter : Nat × Path} (pending : waiter ∈ s.board.pending)
      (due : valueAt (.table after) waiter.2 ≠ .nil) : ∃ response ∈ responses,
        (response, answer) = (waiter.1, if waiter.2 <+: key :: rest ∧ waiter.2 ≠ key :: rest then
          Answer.error else .value (valueAt (.table after) waiter.2)) := by
    refine List.mem_map.mp (new_.symm.subset (List.mem_map.mpr ⟨waiter, ?_, rfl⟩))
    exact List.mem_filter.mpr ⟨pending, by simpa [← Value.isNil_iff] using due⟩
  refine ⟨?_, ?_, ?_⟩
  · intro waiter pending below some_ split
    by_contra found
    cases effects waiter pending with
    | below rest' _ split' value' =>
      rw [split, List.append_cancel_left_eq] at split'
      rw [← split'] at value'
      obtain ⟨response, inside, same⟩ := answered pending (value' ▸ found)
      rw [Prod.mk.injEq] at same
      rcases from_ with ⟨empty, _⟩ | ⟨_, above, _, queue, broken⟩
      · rw [empty] at inside
        cases inside
      · obtain ⟨other, also, is, there⟩ := tracked.mem_responses queue inside
        rw [tracked.answered.unique also pending (is.trans same.1)] at there
        have longer : above.length ≠ (key :: rest).length := by
          have pos := List.length_pos_of_ne_nil some_
          rw [← there, split, List.length_append]
          omega
        have value_ : answer = .value (valueAt (.table after) waiter.2) := by
          rw [same.2, if_neg]
          rintro ⟨short, _⟩
          have shorter := short.length_le
          rw [there] at shorter
          rw [← there, split, List.length_append] at longer
          rw [← there, split, List.length_append] at shorter
          omega
        rw [broken longer] at value_
        cases value_
    | here same _ => exact some_ (List.self_eq_append_right.mp (same.symm.trans split))
    | above rest' more split' _ =>
      have lengths := congrArg List.length split
      rw [split', List.length_append, List.length_append] at lengths
      have pos := List.length_pos_of_ne_nil more
      omega
    | beside outside _ _ => exact outside ⟨below, split.symm⟩
  · intro none_ waiter pending inside
    by_contra other
    have empty : responses = [] := by
      rcases from_ with ⟨empty, _⟩ | ⟨some_, _⟩
      · exact empty
      · exact absurd none_ some_
    have due : valueAt (.table after) waiter.2 ≠ .nil := by
      cases effects waiter pending with
      | above _ _ _ found => exact found
      | here same _ => exact absurd same other
      | beside _ outside _ => exact absurd inside outside
      | below rest' more split _ =>
        have shorter := inside.length_le
        rw [split, List.length_append] at shorter
        exact absurd (List.eq_nil_of_length_eq_zero (by omega)) more
    obtain ⟨response, inside, _⟩ := answered pending due
    rw [empty] at inside
    cases inside
  · intro ret k asKey waiter pending split
    have leaf : ∀ below, below ≠ [] → valueAt value below = .nil := by
      intro below some_
      cases value with
      | table fields => cases asKey
      | scalar scalar =>
        cases below with
        | nil => exact absurd rfl some_
        | cons next below => rfl
    have missing : valueAt (.table after) waiter.2 = .nil := by
      cases effects waiter pending with
      | below rest' some_ _ is => rw [is, leaf rest' some_]
      | here same _ =>
        exact absurd (List.self_eq_append_right.mp (same.symm.trans split)) (List.cons_ne_nil _ _)
      | above rest' more split' _ =>
        have lengths := congrArg List.length split
        rw [split', List.length_append, List.length_append] at lengths
        have pos := List.length_pos_of_ne_nil more
        rw [List.length_singleton] at lengths
        omega
      | beside outside _ _ => exact absurd ⟨[k], split.symm⟩ outside
    have queue := tracked.peek_pending pending
    have whole : waiter.2 = key :: rest ++ value.asKey.toList := by
      rw [split, asKey, Option.toList_some]
    rcases from_ with ⟨_, truthy | none_ | free⟩ | ⟨_, above, onRoute, found, _⟩
    · rw [ret] at truthy
      cases truthy
    · rw [none_] at asKey
      cases asKey
    · exact free waiter.2 (whole ▸ List.prefix_rfl) _ queue
    · have same : above = waiter.2 := by
        refine tracked.separate _ (tracked.leaves above responses found) _
          (tracked.waited waiter pending) ?_
        rw [whole]
        exact onRoute
      have inside : waiter.1 ∈ responses := by
        rw [tracked.responses found, same]
        exact List.mem_map_of_mem (List.mem_filter.mpr ⟨pending, decide_eq_true rfl⟩)
      obtain ⟨other, due, is⟩ := List.mem_map.mp
        (new_.subset (List.mem_map.mpr ⟨waiter.1, inside, rfl⟩))
      obtain ⟨also, there⟩ := List.mem_filter.mp due
      rw [tracked.answered.unique also pending (Prod.mk.inj is).1, missing] at there
      cases there

theorem wakes_database (s : Center) (after : Fields) (path : Path) (value ret : Value) :
    (wakes s after path value ret).database = after := by
  unfold wakes
  simp only
  split_ifs
  · rfl
  · split <;> rfl

theorem step_direct (tracked : Tracked s) (command : Command) (taken : step s command = some t) :
    (Direct s command → Tracked t) ∧ (Answered t → Direct s command) := by
  cases command with
  | update key rest value =>
    simp only [step] at taken
    split_ifs at taken with pass
    obtain ⟨after, done, set, above, others⟩ :=
      update_spec s.center.database key rest value pass
    obtain ⟨center, ran, rfl⟩ := Option.map_eq_some_iff.mp taken
    have is : center = wakes s.center after (key :: rest) value
        (valueAt (.table s.center.database) (key :: rest)) := by
      rw [Center.update, done, Option.map_some, Option.some.injEq] at ran
      exact ran.symm
    have effects : ∀ waiter ∈ s.board.pending, Effect after (key :: rest) value waiter.2 :=
      fun waiter pending => effect tracked set above others pending
    rw [is, wakes_database]
    constructor
    · intro direct
      exact update_tracked tracked direct effects
    · intro answered
      exact update_direct tracked effects answered.answers
  | wait key rest =>
    simp only [step] at taken
    split_ifs at taken with fresh
    obtain ⟨pass, fresh⟩ := fresh
    rw [Option.some.injEq] at taken
    subst taken
    constructor
    · rintro ⟨true_, present⟩
      by_cases missing : valueAt (.table s.center.database) (key :: rest) = .nil
      · exact wait_missing tracked pass fresh missing present
      · exact wait_found tracked pass fresh ((Value.truthy_iff _).mpr ⟨missing, true_⟩)
    · intro answered
      exact wait_direct tracked pass fresh answered.answers

theorem waiters_answered_once (commands : List Command) (final : Session)
    (reached : Transition.run step start commands = some final) :
    Transition.Along step (fun s command => ∀ t, step s command = some t → Answered t) start
        commands ↔
      Transition.Along step Direct start commands := by
  refine (Transition.Along.iff Tracked ?_ ?_ commands _ final start_tracked reached).symm
  · intro s command t tracked direct taken
    exact (step_direct tracked command taken).1 direct
  · intro s command t tracked taken
    obtain ⟨keeps, only⟩ := step_direct tracked command taken
    constructor
    · intro direct next done
      rw [taken, Option.some.injEq] at done
      exact done ▸ (keeps direct).answered
    · intro answered
      exact only (answered t taken)

def word (byte : UInt8) : Key := ⟨.string [byte], rfl⟩

def waitForBranch : List Command :=
  [.wait (word 97) [], .update (word 97) [word 98] (.scalar (.integer 1))]

theorem branch_answered :
    ∃ s, Transition.run step start waitForBranch = some s ∧ s.center.answers = [(0, .error)] ∧
      Transition.Along step (fun s command => ∀ t, step s command = some t → Answered t) start
        waitForBranch := by
  refine ⟨_, rfl, rfl, (waiters_answered_once waitForBranch _ rfl).mpr
    ⟨⟨?_, fun missing => missing.1 rfl⟩, ⟨?_, ?_, ?_⟩, trivial⟩⟩
  · intro is
    cases is
  · intro waiter pending below some_ split
    rw [List.mem_singleton.mp pending] at split
    cases split
  · intro none_
    cases none_
  · intro _ k _ waiter pending split
    rw [List.mem_singleton.mp pending] at split
    cases split

def fieldB : Value := .table fun key => if key = word 98 then .scalar (.integer 1) else .nil

theorem waiters_left_or_misled :
    (∃ s, Transition.run step start [.wait (word 97) [word 98], .update (word 97) [] fieldB] =
      some s ∧ ¬Answered s) ∧
    (∃ s, Transition.run step start [.update (word 97) [] (.scalar (.boolean false)),
      .wait (word 97) []] = some s ∧ ¬Answered s) ∧
    (∃ s, Transition.run step start [.update (word 97) [] (.table fun _ => .nil),
      .wait (word 97) [word 98, word 99]] = some s ∧ ¬Answered s) ∧
    (∃ s, Transition.run step start [.wait (word 97) [], .update (word 97) [word 98] .nil] =
      some s ∧ ¬Answered s) ∧
    ∃ s, Transition.run step start [.wait (word 97) [word 98],
      .update (word 97) [] (.scalar (.string [98]))] = some s ∧ ¬Answered s := by
  refine ⟨⟨_, rfl, ?_⟩, ⟨_, rfl, ?_⟩, ⟨_, rfl, ?_⟩, ⟨_, rfl, ?_⟩, ⟨_, rfl, ?_⟩⟩
  all_goals
    intro answered
    exact absurd answered.answers.length_eq (by decide)

end Session

end Pskynet.Datacenter
