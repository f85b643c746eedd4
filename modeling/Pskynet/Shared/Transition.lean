set_option autoImplicit false

namespace Transition

variable {State Action : Type}

def run (step : State → Action → Option State) : State → List Action → Option State
  | state, [] => some state
  | state, action :: rest =>
      match step state action with
      | some next => run step next rest
      | none => none

theorem run_append (step : State → Action → Option State) (state : State)
    (before later : List Action) :
    run step state (before ++ later) =
      (run step state before).bind fun reached => run step reached later := by
  induction before generalizing state with
  | nil => rfl
  | cons action before ih =>
    simp only [List.cons_append, run]
    cases step state action with
    | none => rfl
    | some next => exact ih next

theorem run_invariant (step : State → Action → Option State) (inv : State → Prop)
    (keeps : ∀ state action next, inv state → step state action = some next → inv next)
    (actions : List Action) (state final : State) (start : inv state)
    (reached : run step state actions = some final) : inv final := by
  induction actions generalizing state with
  | nil =>
    simp only [run, Option.some.injEq] at reached
    exact reached ▸ start
  | cons action rest ih =>
    simp only [run] at reached
    split at reached
    · rename_i next taken
      exact ih next (keeps state action next start taken) reached
    · contradiction

inductive Path (step : State → Action → Option State) (allowed : State → Action → Prop) :
    State → State → Prop where
  | refl (state : State) : Path step allowed state state
  | tail {start state next : State} (action : Action) (before : Path step allowed start state)
      (allow : allowed state action) (taken : step state action = some next) :
      Path step allowed start next

theorem Path.invariant {step : State → Action → Option State} {allowed : State → Action → Prop}
    (inv : State → Prop)
    (keeps : ∀ state action next, inv state → allowed state action →
      step state action = some next → inv next)
    {start final : State} (path : Path step allowed start final) (initial : inv start) :
    inv final := by
  induction path with
  | refl => exact initial
  | tail action _ allow taken ih => exact keeps _ action _ ih allow taken

def Along (step : State → Action → Option State) (allowed : State → Action → Prop) :
    State → List Action → Prop
  | _, [] => True
  | state, action :: rest =>
      allowed state action ∧
        match step state action with
        | some next => Along step allowed next rest
        | none => True

instance decidableAlong (step : State → Action → Option State) (allowed : State → Action → Prop)
    [∀ state action, Decidable (allowed state action)] :
    ∀ state actions, Decidable (Along step allowed state actions)
  | _, [] => .isTrue trivial
  | state, action :: rest =>
      have : Decidable (match step state action with
          | some next => Along step allowed next rest
          | none => True) :=
        match step state action with
        | some next => decidableAlong step allowed next rest
        | none => .isTrue trivial
      inferInstanceAs (Decidable (_ ∧ _))

theorem Along.front {step : State → Action → Option State} {allowed : State → Action → Prop}
    {state : State} (before later : List Action)
    (along : Along step allowed state (before ++ later)) : Along step allowed state before := by
  induction before generalizing state with
  | nil => trivial
  | cons action before ih =>
    obtain ⟨allow, rest⟩ := along
    refine ⟨allow, ?_⟩
    cases taken : step state action with
    | none => trivial
    | some next =>
      rw [taken] at rest
      exact ih rest

theorem Along.last {step : State → Action → Option State} {allowed : State → Action → Prop}
    {state reached : State} (before : List Action) (action : Action) (later : List Action)
    (along : Along step allowed state (before ++ action :: later))
    (ran : run step state before = some reached) : allowed reached action := by
  induction before generalizing state with
  | nil =>
    obtain rfl := Option.some.inj ran
    exact along.1
  | cons first before ih =>
    obtain ⟨-, rest⟩ := along
    simp only [run] at ran
    cases taken : step state first with
    | none =>
      rw [taken] at ran
      contradiction
    | some next =>
      rw [taken] at ran rest
      exact ih rest ran

theorem Along.iff {step : State → Action → Option State} {first second : State → Action → Prop}
    (inv : State → Prop)
    (keeps : ∀ state action next, inv state → first state action →
      step state action = some next → inv next)
    (same : ∀ state action next, inv state → step state action = some next →
      (first state action ↔ second state action))
    (actions : List Action) (state final : State) (start : inv state)
    (reached : run step state actions = some final) :
    Along step first state actions ↔ Along step second state actions := by
  induction actions generalizing state with
  | nil => exact Iff.rfl
  | cons action rest ih =>
    simp only [run] at reached
    cases taken : step state action with
    | none =>
      rw [taken] at reached
      contradiction
    | some next =>
      rw [taken] at reached
      simp only [Along, taken]
      rw [← same state action next start taken]
      refine and_congr_right ?_
      intro allow
      exact ih next (keeps state action next start allow taken) reached

theorem Along.iff_holds {step : State → Action → Option State} {allowed : State → Action → Prop}
    (holds : State → Prop) (inv : State → Prop)
    (keeps : ∀ state action next, inv state → step state action = some next → inv next)
    (exact_ : ∀ state action next, inv state → holds state → step state action = some next →
      (holds next ↔ allowed state action))
    (actions : List Action) (state final : State) (start : inv state) (held : holds state)
    (reached : run step state actions = some final) :
    (∀ before later middle, actions = before ++ later → run step state before = some middle →
      holds middle) ↔ Along step allowed state actions := by
  induction actions generalizing state with
  | nil =>
    refine ⟨fun _ => trivial, fun _ before later middle parts ran => ?_⟩
    obtain ⟨rfl, -⟩ := List.append_eq_nil_iff.mp parts.symm
    obtain rfl := Option.some.inj ran
    exact held
  | cons action rest ih =>
    simp only [run] at reached
    cases taken : step state action with
    | none =>
      rw [taken] at reached
      contradiction
    | some next =>
      rw [taken] at reached
      have here := exact_ state action next start held taken
      have later := fun good => ih next (keeps state action next start taken) good reached
      simp only [Along, taken]
      constructor
      · intro all
        have good : holds next := all [action] rest next rfl (by simp only [run, taken])
        refine ⟨here.mp good, (later good).mp fun before after middle parts ran => ?_⟩
        refine all (action :: before) after middle (congrArg (action :: ·) parts) ?_
        simp only [run, taken]
        exact ran
      · rintro ⟨allow, along⟩ before after middle parts ran
        cases before with
        | nil =>
          obtain rfl := Option.some.inj ran
          exact held
        | cons first before =>
          obtain ⟨rfl, cut⟩ := List.cons.inj parts
          simp only [run, taken] at ran
          exact (later (here.mpr allow)).mpr along before after middle cut ran

theorem Path.of_run {step : State → Action → Option State} {allowed : State → Action → Prop}
    (actions : List Action) {start state final : State} (before : Path step allowed start state)
    (along : Along step allowed state actions) (reached : run step state actions = some final) :
    Path step allowed start final := by
  induction actions generalizing state with
  | nil =>
    simp only [run, Option.some.injEq] at reached
    exact reached ▸ before
  | cons action rest ih =>
    obtain ⟨allow, later⟩ := along
    simp only [run] at reached
    split at reached
    · rename_i next taken
      rw [taken] at later
      exact ih (before.tail action allow taken) later reached
    · contradiction

theorem Path.mono {step : State → Action → Option State} {allowed more : State → Action → Prop}
    (weaker : ∀ state action, allowed state action → more state action)
    {start final : State} (path : Path step allowed start final) :
    Path step more start final := by
  induction path with
  | refl => exact .refl _
  | tail action _ allow taken ih => exact .tail action ih (weaker _ _ allow) taken

end Transition
