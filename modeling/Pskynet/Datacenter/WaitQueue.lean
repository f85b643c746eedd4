import Pskynet.Datacenter.Database

set_option autoImplicit false

namespace Pskynet.Datacenter

inductive Waiting where
  | queue (responses : List Nat)
  | branch (entries : Key → Option Waiting)

abbrev Entries := Key → Option Waiting

inductive Wakes where
  | nothing
  | broken (responses : List Nat)
  | woken (responses : List Nat)
  deriving DecidableEq

def wakeup : Entries → List Value → Entries × Wakes
  | db, [] => (db, .nothing)
  | db, key1 :: args =>
      match key1.asKey with
      | none => (db, .nothing)
      | some key =>
          match db key with
          | none => (db, .nothing)
          | some (.queue q) =>
              (Function.update db key none, if args.length ≠ 1 then .broken q else .woken q)
          | some (.branch q) =>
              let (q, wakes) := wakeup q args
              (Function.update db key (some (.branch q)), wakes)

-- A failed assertion gives none.
def waitfor : Entries → Key → List Key → Nat → Option Entries
  | db, key1, [], response =>
      match db key1 with
      | none => some (Function.update db key1 (some (.queue [response])))
      | some (.queue q) => some (Function.update db key1 (some (.queue (q ++ [response]))))
      | some (.branch _) => none
  | db, key1, key2 :: rest, response =>
      match db key1 with
      | none => (waitfor (fun _ => none) key2 rest response).map fun q =>
          Function.update db key1 (some (.branch q))
      | some (.branch q) => (waitfor q key2 rest response).map fun q =>
          Function.update db key1 (some (.branch q))
      | some (.queue _) => none

inductive Node where
  | queue (responses : List Nat)
  | branch
  deriving DecidableEq

def Waiting.node : Waiting → Node
  | .queue responses => .queue responses
  | .branch _ => .branch

def peek : Entries → List Key → Option Node
  | _, [] => some .branch
  | db, key :: rest =>
      match db key with
      | none => none
      | some (.queue responses) => if rest = [] then some (.queue responses) else none
      | some (.branch entries) => peek entries rest

@[simp] theorem peek_nil (db : Entries) : peek db [] = some .branch := rfl

theorem peek_empty (path : List Key) (some_ : path ≠ []) : peek (fun _ => none) path = none := by
  cases path with
  | nil => exact absurd rfl some_
  | cons key rest => rfl

theorem peek_update (db : Entries) (key other : Key) (rest : List Key) (waiting : Option Waiting) :
    peek (Function.update db key waiting) (other :: rest) =
      if other = key then peek (fun _ => waiting) (other :: rest) else peek db (other :: rest) := by
  by_cases same : other = key
  · simp [peek, same]
  · simp [peek, same]

def responsesAt (db : Entries) (path : List Key) : List Nat :=
  match peek db path with
  | some (.queue responses) => responses
  | _ => []

theorem waitfor_spec (db : Entries) (key : Key) (rest : List Key) (response : Nat)
    (free : ∀ above below, key :: rest = above ++ below → below ≠ [] →
      ∀ responses, peek db above ≠ some (.queue responses))
    (leaf : peek db (key :: rest) ≠ some .branch) :
    ∃ after, waitfor db key rest response = some after ∧
      peek after (key :: rest) = some (.queue (responsesAt db (key :: rest) ++ [response])) ∧
      (∀ above below, key :: rest = above ++ below → below ≠ [] → peek after above = some .branch) ∧
      ∀ path, ¬path <+: key :: rest → peek after path = peek db path := by
  induction rest generalizing db key with
  | nil =>
    have others (responses : List Nat) (path : List Key) (outside : ¬path <+: [key])
        (last : db key = none ∨ ∃ q, db key = some (.queue q)) :
        peek (Function.update db key (some (.queue responses))) path = peek db path := by
      cases path with
      | nil => exact absurd List.nil_prefix outside
      | cons other path =>
        rw [peek_update]
        split_ifs with same
        · subst same
          have some_ : path ≠ [] := by
            intro empty
            exact outside (empty ▸ List.prefix_rfl)
          rcases last with absent | ⟨q, found⟩
          · simp [peek, absent, some_]
          · simp [peek, found, some_]
        · rfl
    have short (above below : List Key) (split : [key] = above ++ below) (some_ : below ≠ []) :
        above = [] := by
      cases above with
      | nil => rfl
      | cons other above =>
        rw [List.cons_append, List.cons.injEq] at split
        exact absurd (List.append_eq_nil_iff.mp split.2.symm).2 some_
    cases here : db key with
    | none =>
      refine ⟨_, by rw [waitfor, here], ?_, ?_, fun path outside => others _ path outside (.inl here)⟩
      · simp [peek, responsesAt, here]
      · intro above below split some_
        rw [short above below split some_]
        rfl
    | some waiting =>
      cases waiting with
      | queue q =>
        refine ⟨_, by rw [waitfor, here], ?_, ?_,
          fun path outside => others _ path outside (.inr ⟨q, here⟩)⟩
        · simp [peek, responsesAt, here]
        · intro above below split some_
          rw [short above below split some_]
          rfl
      | branch entries => simp [peek, here] at leaf
  | cons next rest ih =>
    obtain ⟨entries, run, old⟩ : ∃ entries : Entries,
        waitfor db key (next :: rest) response = ((waitfor entries next rest response).map fun q =>
          Function.update db key (some (.branch q))) ∧
        ∀ path, path ≠ [] → peek entries path = peek db (key :: path) := by
      cases here : db key with
      | none =>
        refine ⟨fun _ => none, by rw [waitfor, here], ?_⟩
        intro path some_
        rw [peek_empty path some_, peek, here]
      | some waiting =>
        cases waiting with
        | queue q =>
          refine absurd ?_ (free [key] (next :: rest) rfl (List.cons_ne_nil _ _) q)
          simp [peek, here]
        | branch entries =>
          refine ⟨entries, by rw [waitfor, here], ?_⟩
          intro path _
          rw [peek, here]
    obtain ⟨after, done, last, above, others⟩ := ih entries next (by
      intro above below split some_ responses
      cases above with
      | nil => simp
      | cons other above =>
        rw [old _ (List.cons_ne_nil _ _)]
        exact free (key :: other :: above) below (by rw [split]; rfl) some_ responses) (by
      rw [old _ (List.cons_ne_nil _ _)]
      exact leaf)
    refine ⟨Function.update db key (some (.branch after)), by rw [run, done]; rfl, ?_, ?_, ?_⟩
    · rw [peek_update, if_pos rfl, peek]
      simp only [last, responsesAt, old (next :: rest) (List.cons_ne_nil _ _)]
    · intro path below split some_
      cases path with
      | nil => rfl
      | cons other path =>
        rw [List.cons_append, List.cons.injEq] at split
        rw [peek_update, if_pos split.1.symm, peek]
        exact above path below split.2 some_
    · intro path outside
      cases path with
      | nil => exact absurd List.nil_prefix outside
      | cons other path =>
        rw [peek_update]
        split_ifs with same
        · subst same
          rw [List.cons_prefix_cons] at outside
          have apart : ¬path <+: next :: rest := fun h => outside ⟨rfl, h⟩
          have some_ : path ≠ [] := by
            intro empty
            exact apart (empty ▸ List.nil_prefix)
          rw [peek, ← old path some_]
          exact others path apart
        · rfl

def route : List Value → List Key
  | [] => []
  | value :: args =>
      match value.asKey with
      | none => []
      | some key => key :: route args

theorem route_append (path : List Key) (args : List Value) :
    route (path.map Value.ofKey ++ args) = path ++ route args := by
  induction path with
  | nil => rfl
  | cons key path ih => simp [route, Value.asKey_ofKey, ih]

inductive Wakeup (db : Entries) (args : List Value) (after : Entries) (wakes : Wakes) : Prop where
  | takes (above below : List Key) (responses : List Nat) (split : route args = above ++ below)
      (found : peek db above = some (.queue responses))
      (wakes : wakes = if args.length ≠ above.length + 1 then .broken responses else .woken responses)
      (after : ∀ path, peek after path = if path = above then none else peek db path)
  | misses (free : ∀ above below, route args = above ++ below →
        ∀ responses, peek db above ≠ some (.queue responses))
      (wakes : wakes = .nothing) (after : ∀ path, peek after path = peek db path)

theorem wakeup_spec (db : Entries) (args : List Value) :
    Wakeup db args (wakeup db args).1 (wakeup db args).2 := by
  induction args generalizing db with
  | nil =>
    refine .misses ?_ rfl fun _ => rfl
    intro above below split responses
    rw [(List.append_eq_nil_iff.mp split.symm).1]
    simp
  | cons key1 args ih =>
    cases is : key1.asKey with
    | none =>
      simp only [wakeup, is]
      refine .misses ?_ rfl fun _ => rfl
      intro above below split responses
      simp only [route, is] at split
      rw [(List.append_eq_nil_iff.mp split.symm).1]
      simp
    | some key =>
      have goes : route (key1 :: args) = key :: route args := by simp only [route, is]
      cases here : db key with
      | none =>
        simp only [wakeup, is, here]
        refine .misses ?_ rfl fun _ => rfl
        intro above below split responses
        cases above with
        | nil => simp
        | cons other above =>
          rw [goes, List.cons_append, List.cons.injEq] at split
          simp [peek, ← split.1, here]
      | some waiting =>
        cases waiting with
        | queue q =>
          simp only [wakeup, is, here]
          refine .takes [key] (route args) q goes (by simp [peek, here]) (by simp) ?_
          intro path
          cases path with
          | nil => rfl
          | cons other path =>
            rw [peek_update]
            by_cases same : other = key
            · by_cases empty : path = []
              · simp [same, empty, peek]
              · simp [same, empty, peek, here]
            · simp [same]
        | branch entries =>
          have taken : wakeup db (key1 :: args) =
              (Function.update db key (some (.branch (wakeup entries args).1)),
                (wakeup entries args).2) := by
            simp only [wakeup, is, here]
          have below (path : List Key) : peek db (key :: path) = peek entries path := by
            simp only [peek, here]
          rw [taken]
          cases ih entries with
          | takes above rest responses split found wakes after =>
            refine .takes (key :: above) rest responses (by rw [goes, split]; rfl)
              (by rw [below, found]) (by simpa using wakes) ?_
            intro path
            cases path with
            | nil => rfl
            | cons other path =>
              rw [peek_update]
              by_cases same : other = key
              · subst same
                simp only [if_true, peek, here, after, List.cons.injEq, true_and]
              · simp [same]
          | misses free wakes after =>
            refine .misses ?_ wakes ?_
            · intro above rest split responses
              cases above with
              | nil => simp
              | cons other above =>
                rw [goes, List.cons_append, List.cons.injEq] at split
                rw [← split.1, below]
                exact free above rest split.2 responses
            · intro path
              cases path with
              | nil => rfl
              | cons other path =>
                rw [peek_update]
                by_cases same : other = key
                · subst same
                  simp only [if_true, peek, here, after]
                · simp [same]

end Pskynet.Datacenter
