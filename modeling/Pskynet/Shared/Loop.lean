import Mathlib.Data.Fintype.Card
import Mathlib.Data.Set.Finite.Basic
import Mathlib.Logic.Relation
import Mathlib.Tactic

set_option autoImplicit false

namespace Loop

open Relation

section Cycles

variable {κ : Type} {goes : κ → κ → Prop}

theorem not_acc_of_cycle {a : κ} (cycle : TransGen goes a a) : ¬Acc (flip goes) a := by
  intro acc
  have closed : Acc (TransGen (flip goes)) a := acc.transGen
  induction closed with
  | intro a _ ih => exact ih a (transGen_swap.mpr cycle) cycle acc

theorem acc_of_reached {a b : κ} (acc : Acc (flip goes) a) (reached : ReflTransGen goes a b) :
    Acc (flip goes) b := by
  induction reached with
  | refl => exact acc
  | tail _ step ih => exact ih.inv step

theorem acc_iff_no_cycle {a : κ} (few : {b | ReflTransGen goes a b}.Finite) :
    Acc (flip goes) a ↔ ¬∃ b, ReflTransGen goes a b ∧ TransGen goes b b := by
  constructor
  · rintro acc ⟨b, reached, cycle⟩
    exact not_acc_of_cycle cycle (acc_of_reached acc reached)
  · intro free
    have : Finite {b | ReflTransGen goes a b} := few
    have wf : WellFounded fun x y : {b | ReflTransGen goes a b} => TransGen goes y.1 x.1 := by
      have : IsTrans {b | ReflTransGen goes a b} fun x y => TransGen goes y.1 x.1 :=
        ⟨fun _ _ _ one two => two.trans one⟩
      have : Std.Irrefl fun x y : {b | ReflTransGen goes a b} => TransGen goes y.1 x.1 :=
        ⟨fun x cycle => free ⟨x, x.2, cycle⟩⟩
      exact Finite.wellFounded_of_trans_of_irrefl _
    suffices all : ∀ x : {b | ReflTransGen goes a b}, Acc (flip goes) x.1 from all ⟨a, .refl⟩
    intro x
    induction x using wf.induction with
    | _ x ih => exact ⟨_, fun b step => ih ⟨b, x.2.tail step⟩ (.single step)⟩

end Cycles

section Run

variable {σ ρ κ : Type}

def run (round : σ → σ ⊕ ρ) : Nat → σ → Option ρ
  | 0, _ => none
  | fuel + 1, s =>
    match round s with
    | .inl next => run round fuel next
    | .inr result => some result

variable {round : σ → σ ⊕ ρ}

theorem run_inl {s next : σ} (goes_on : round s = .inl next) (fuel : Nat) :
    run round (fuel + 1) s = run round fuel next := by
  rw [run, goes_on]

theorem run_inr {s : σ} {result : ρ} (left : round s = .inr result) (fuel : Nat) :
    run round (fuel + 1) s = some result := by
  rw [run, left]

theorem acc_of_run {fuel : Nat} {s : σ} {result : ρ} (done : run round fuel s = some result) :
    Acc (fun t s => round s = .inl t) s := by
  induction fuel generalizing s with
  | zero => cases done
  | succ fuel ih =>
    refine ⟨s, fun t goes_on => ?_⟩
    rw [run_inl goes_on] at done
    exact ih done

theorem run_of_acc {s : σ} (acc : Acc (fun t s => round s = .inl t) s) :
    ∃ fuel result, run round fuel s = some result := by
  induction acc with
  | intro s _ ih =>
    cases here : round s with
    | inl next =>
      obtain ⟨fuel, result, done⟩ := ih next here
      exact ⟨fuel + 1, result, (run_inl here fuel).trans done⟩
    | inr result => exact ⟨1, result, run_inr here 0⟩

theorem run_ends_iff {goes : κ → κ → Prop} (at_ : σ → κ → Prop)
    (sound : ∀ s t k, at_ s k → round s = .inl t → ∃ k', goes k k' ∧ at_ t k')
    (complete : ∀ s k k', at_ s k → goes k k' → ∃ t, round s = .inl t ∧ at_ t k') {s : σ} {k : κ}
    (here : at_ s k) :
    (∃ result fuel, run round fuel s = some result) ↔ Acc (flip goes) k := by
  constructor
  · rintro ⟨result, fuel, done⟩
    have acc := acc_of_run done
    clear done
    induction acc generalizing k with
    | intro s _ ih =>
      refine ⟨k, fun k' step => ?_⟩
      obtain ⟨t, goes_on, there⟩ := complete s k k' here step
      exact ih t goes_on there
  · intro acc
    have acc : Acc (fun t s => round s = .inl t) s := by
      induction acc generalizing s with
      | intro k _ ih =>
        refine ⟨s, fun t goes_on => ?_⟩
        obtain ⟨k', step, there⟩ := sound s t k here goes_on
        exact ih k' step there
    obtain ⟨fuel, result, done⟩ := run_of_acc acc
    exact ⟨result, fuel, done⟩

end Run

section Fuel

variable {α β ε : Type}

def Grows (f : Nat → Option α) : Prop :=
  ∀ fuel more a, fuel ≤ more → f fuel = some a → f more = some a

def Gives (f : Nat → Option α) (a : α) : Prop := ∃ fuel, f fuel = some a

def Halts (f : Nat → Option α) : Prop := ∃ a, Gives f a

theorem grows_run {σ ρ : Type} (round : σ → σ ⊕ ρ) (s : σ) : Grows fun fuel => run round fuel s := by
  intro fuel more result enough done
  induction fuel generalizing s more with
  | zero => cases done
  | succ fuel ih =>
    obtain ⟨more, rfl⟩ : ∃ n, more = n + 1 := ⟨more - 1, by omega⟩
    cases here : round s with
    | inl next =>
      simp only [run_inl here] at done ⊢
      exact ih next more (by omega) done
    | inr result =>
      simp only [run_inr here] at done ⊢
      exact done

theorem Gives.unique {f : Nat → Option α} (grows : Grows f) {a b : α} (one : Gives f a)
    (two : Gives f b) : a = b := by
  obtain ⟨n, one⟩ := one
  obtain ⟨m, two⟩ := two
  have same := (grows n (max n m) a (le_max_left _ _) one).symm.trans
    (grows m (max n m) b (le_max_right _ _) two)
  exact Option.some.inj same

def bind (f : Nat → Option (Except ε α)) (g : α → Nat → Option (Except ε β)) (fuel : Nat) :
    Option (Except ε β) :=
  match f fuel with
  | none => none
  | some (.error error) => some (.error error)
  | some (.ok a) => g a fuel

variable {f : Nat → Option (Except ε α)} {g : α → Nat → Option (Except ε β)}

theorem bind_none {fuel : Nat} (first : f fuel = none) : bind f g fuel = none := by
  rw [bind, first]

theorem bind_ok {fuel : Nat} {a : α} (first : f fuel = some (.ok a)) : bind f g fuel = g a fuel := by
  rw [bind, first]

theorem bind_error {fuel : Nat} {error : ε} (first : f fuel = some (.error error)) :
    bind f g fuel = some (.error error) := by
  rw [bind, first]

theorem of_bind_ok {fuel : Nat} {b : β} (done : bind f g fuel = some (.ok b)) :
    ∃ a, f fuel = some (.ok a) ∧ g a fuel = some (.ok b) := by
  cases here : f fuel with
  | none => cases (bind_none here).symm.trans done
  | some outcome =>
    cases outcome with
    | error error => cases (bind_error here).symm.trans done
    | ok a => exact ⟨a, rfl, (bind_ok here).symm.trans done⟩

theorem grows_bind (first : Grows f) (second : ∀ a, Grows (g a)) : Grows (bind f g) := by
  intro fuel more result enough done
  cases here : f fuel with
  | none => cases (bind_none here).symm.trans done
  | some outcome =>
    have later := first fuel more outcome enough here
    cases outcome with
    | error error =>
      rw [bind_error here] at done
      rw [bind_error later, done]
    | ok a =>
      rw [bind_ok here] at done
      rw [bind_ok later]
      exact second a fuel more result enough done

theorem gives_bind_of_ok (first : Grows f) (second : ∀ a, Grows (g a)) {a : α}
    (given : Gives f (.ok a)) (result : Except ε β) :
    Gives (bind f g) result ↔ Gives (g a) result := by
  obtain ⟨n, one⟩ := given
  constructor
  · rintro ⟨m, done⟩
    have later := grows_bind first second m (max n m) _ (le_max_right _ _) done
    rw [bind_ok (first n (max n m) _ (le_max_left _ _) one)] at later
    exact ⟨max n m, later⟩
  · rintro ⟨m, two⟩
    have one := first n (max n m) _ (le_max_left _ _) one
    have two := second a m (max n m) _ (le_max_right _ _) two
    exact ⟨max n m, (bind_ok one).trans two⟩

theorem gives_bind (first : Grows f) (second : ∀ a, Grows (g a)) (b : β) :
    Gives (bind f g) (.ok b) ↔ ∃ a, Gives f (.ok a) ∧ Gives (g a) (.ok b) := by
  constructor
  · rintro ⟨fuel, done⟩
    obtain ⟨a, one, two⟩ := of_bind_ok done
    exact ⟨a, ⟨fuel, one⟩, ⟨fuel, two⟩⟩
  · rintro ⟨a, one, two⟩
    exact (gives_bind_of_ok first second one (.ok b)).mpr two

theorem halts_bind (first : Grows f) (second : ∀ a, Grows (g a)) :
    Halts (bind f g) ↔ Halts f ∧ ∀ a, Gives f (.ok a) → Halts (g a) := by
  constructor
  · rintro ⟨result, fuel, done⟩
    cases here : f fuel with
    | none => cases (bind_none here).symm.trans done
    | some outcome =>
      refine ⟨⟨outcome, fuel, here⟩, fun a gives => ?_⟩
      obtain rfl := Gives.unique first ⟨fuel, here⟩ gives
      rw [bind_ok here] at done
      exact ⟨result, fuel, done⟩
  · rintro ⟨⟨outcome, n, one⟩, rest⟩
    cases outcome with
    | error error => exact ⟨.error error, n, bind_error one⟩
    | ok a =>
      obtain ⟨result, two⟩ := rest a ⟨n, one⟩
      exact ⟨result, (gives_bind_of_ok first second ⟨n, one⟩ result).mpr two⟩

theorem grows_const (a : α) : Grows fun _ => some a := fun _ _ _ _ done => done

theorem gives_const {a b : α} : Gives (fun _ => some a) b ↔ a = b := by
  constructor
  · rintro ⟨_, same⟩
    exact Option.some.inj same
  · rintro rfl
    exact ⟨0, rfl⟩

theorem halts_const (a : α) : Halts fun _ => some a := ⟨a, 0, rfl⟩

end Fuel

end Loop
