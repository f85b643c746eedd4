import Mathlib.Tactic

set_option autoImplicit false

namespace Outcome

-- What a computation that may stop early gives: a value with `post`, or one of the errors that
-- are allowed.
def Yields {ε α : Type} (allowed : ε → Prop) (result : Except ε α) (post : α → Prop) : Prop :=
  match result with
  | .ok value => post value
  | .error error => allowed error

variable {ε α β : Type} {allowed : ε → Prop}

theorem yields_pure {value : α} {post : α → Prop} (holds : post value) :
    Yields allowed (pure value) post :=
  holds

theorem yields_error {error : ε} {post : α → Prop} (fine : allowed error) :
    Yields allowed (.error error) post :=
  fine

theorem yields_mono {result : Except ε α} {post weaker : α → Prop}
    (yields : Yields allowed result post) (weaken : ∀ value, post value → weaker value) :
    Yields allowed result weaker := by
  cases result with
  | ok value => exact weaken value yields
  | error error => exact yields

theorem yields_bind {result : Except ε α} {next : α → Except ε β} {post : α → Prop}
    {final : β → Prop} (yields : Yields allowed result post)
    (rest : ∀ value, post value → Yields allowed (next value) final) :
    Yields allowed (result >>= next) final := by
  cases result with
  | ok value => exact rest value yields
  | error error => exact yields

theorem map_ok {result : Except ε α} {f : α → β} {value : β} :
    result.map f = .ok value ↔ ∃ before, result = .ok before ∧ f before = value := by
  cases result with
  | ok before => simp [Except.map]
  | error error => simp [Except.map]

theorem bind_ok {result : Except ε α} {next : α → Except ε β} {value : β} :
    result >>= next = .ok value ↔ ∃ before, result = .ok before ∧ next before = .ok value := by
  cases result with
  | ok before => simp [bind, Except.bind]
  | error error => simp [bind, Except.bind]

-- `P` holds of an element and of what is before it in the list.
def Somewhere (P : List α → α → Prop) (list : List α) : Prop :=
  ∃ before a after, list = before ++ a :: after ∧ P before a

theorem not_somewhere_nil (P : List α → α → Prop) : ¬Somewhere P [] := by
  rintro ⟨before, a, after, parts, _⟩
  exact absurd (congrArg List.length parts) (by simp)

theorem somewhere_append_singleton (P : List α → α → Prop) (list : List α) (last : α) :
    Somewhere P (list ++ [last]) ↔ Somewhere P list ∨ P list last := by
  constructor
  · rintro ⟨before, a, after, parts, holds⟩
    rcases List.eq_nil_or_concat after with rfl | ⟨rest, final, rfl⟩
    · obtain ⟨rfl, same⟩ := List.append_inj' parts rfl
      obtain rfl := (List.cons.inj same).1
      exact .inr holds
    · rw [List.concat_eq_append, ← List.cons_append, ← List.append_assoc] at parts
      obtain ⟨rfl, -⟩ := List.append_inj' parts rfl
      exact .inl ⟨before, a, rest, rfl, holds⟩
  · rintro (⟨before, a, after, rfl, holds⟩ | holds)
    · exact ⟨before, a, after ++ [last], by simp, holds⟩
    · exact ⟨list, last, [], rfl, holds⟩

theorem somewhere_mem (P : α → Prop) (list : List α) :
    Somewhere (fun _ a => P a) list ↔ ∃ a ∈ list, P a := by
  constructor
  · rintro ⟨before, a, after, rfl, holds⟩
    exact ⟨a, by simp, holds⟩
  · rintro ⟨a, inside, holds⟩
    obtain ⟨before, after, parts⟩ := List.append_of_mem inside
    exact ⟨before, a, after, parts, holds⟩

-- The computation stops early, with one of the errors that are allowed, exactly if `refused`.
def Decides (allowed : ε → Prop) (refused : Prop) (result : Except ε α) (post : α → Prop) : Prop :=
  match result with
  | .ok value => ¬refused ∧ post value
  | .error error => refused ∧ allowed error

variable {refused other : Prop}

theorem decides_mono {result : Except ε α} {post weaker : α → Prop}
    (decides : Decides allowed refused result post) (same : refused ↔ other)
    (weaken : ∀ value, ¬refused → post value → weaker value) :
    Decides allowed other result weaker := by
  cases result with
  | ok value => exact ⟨fun over_ => decides.1 (same.mpr over_), weaken value decides.1 decides.2⟩
  | error error => exact ⟨same.mp decides.1, decides.2⟩

theorem decides_map {result : Except ε α} {f : α → β} {post : β → Prop}
    (decides : Decides allowed refused result fun value => post (f value)) :
    Decides allowed refused (result.map f) post := by
  cases result with
  | ok value => exact decides
  | error error => exact decides

theorem decides_bind {result : Except ε α} {next : α → Except ε β} {post : α → Prop}
    {final : β → Prop} (decides : Decides allowed refused result post)
    (rest : ∀ value, post value → Decides allowed other (next value) final) :
    Decides allowed (refused ∨ other) (result >>= next) final := by
  cases result with
  | ok value =>
    refine decides_mono (rest value decides.2) ?_ fun _ _ holds => holds
    exact ⟨.inr, fun either => either.resolve_left decides.1⟩
  | error error => exact ⟨.inl decides.1, decides.2⟩

section Fold

variable {σ : Type} {step : σ → α → Except ε σ} {before : σ → σ → Prop}

theorem foldlM_moves (refl : ∀ s, before s s) (trans : ∀ s t u, before s t → before t u → before s u)
    (moves : ∀ s a t, step s a = .ok t → before s t) (list : List α) (s final : σ)
    (run : list.foldlM step s = .ok final) : before s final := by
  induction list generalizing s with
  | nil =>
    cases run
    exact refl _
  | cons a rest ih =>
    rw [List.foldlM_cons, bind_ok] at run
    obtain ⟨t, taken, run⟩ := run
    exact trans _ _ _ (moves s a t taken) (ih t run)

theorem foldlM_each {list : List α} {s final : σ} (run : list.foldlM step s = .ok final) :
    ∀ a ∈ list, ∃ t u, step t a = .ok u := by
  induction list generalizing s with
  | nil => simp
  | cons a rest ih =>
    rw [List.foldlM_cons, bind_ok] at run
    obtain ⟨t, taken, run⟩ := run
    exact List.forall_mem_cons.mpr ⟨⟨s, t, taken⟩, ih run⟩

theorem foldlM_invariant (refl : ∀ s, before s s)
    (trans : ∀ s t u, before s t → before t u → before s u)
    (moves : ∀ s a t, step s a = .ok t → before s t) (inv : List α → σ → Prop) (list : List α)
    (s final : σ) (run : list.foldlM step s = .ok final) (start : inv [] s)
    (keeps : ∀ done a rest s t, list = done ++ a :: rest → inv done s → step s a = .ok t →
      before t final → inv (done ++ [a]) t) : inv list final := by
  suffices later : ∀ rest done s, list = done ++ rest → inv done s →
      rest.foldlM step s = .ok final → inv list final from later list [] s rfl start run
  intro rest
  induction rest with
  | nil =>
    intro done s split holds run
    cases run
    rwa [split, List.append_nil]
  | cons a rest ih =>
    intro done s split holds run
    rw [List.foldlM_cons, bind_ok] at run
    obtain ⟨t, taken, run⟩ := run
    refine ih (done ++ [a]) t (by simp [split]) ?_ run
    exact keeps done a rest s t split holds taken (foldlM_moves refl trans moves rest t final run)

theorem foldlM_decides (bad : List α → α → Prop) (inv : List α → σ → Prop) (list : List α) (s : σ)
    (start : inv [] s)
    (keeps : ∀ done a rest s, list = done ++ a :: rest → inv done s →
      Decides allowed (bad done a) (step s a) (inv (done ++ [a]))) :
    Decides allowed (Somewhere bad list) (list.foldlM step s) (inv list) := by
  suffices later : ∀ rest done s, list = done ++ rest → inv done s → ¬Somewhere bad done →
      Decides allowed (Somewhere bad list) (rest.foldlM step s) (inv list) from
    later list [] s rfl start (not_somewhere_nil bad)
  intro rest
  induction rest with
  | nil =>
    intro done s split holds fine
    rw [List.append_nil] at split
    rw [split]
    exact ⟨fine, holds⟩
  | cons a rest ih =>
    intro done s split holds fine
    have taken := keeps done a rest s split holds
    rw [List.foldlM_cons]
    cases result : step s a with
    | error error =>
      rw [result] at taken
      exact ⟨⟨done, a, rest, split, taken.1⟩, taken.2⟩
    | ok next =>
      rw [result] at taken
      refine ih (done ++ [a]) next (by simp [split]) taken.2 ?_
      rw [somewhere_append_singleton]
      exact fun either => either.elim fine taken.1

end Fold

end Outcome
