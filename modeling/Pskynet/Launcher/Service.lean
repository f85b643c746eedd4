import Mathlib.Data.List.Basic
import Mathlib.Tactic
import Pskynet.Shared.Transition

set_option autoImplicit false

namespace Pskynet.Launcher

inductive Note where
  | launch (service param : List UInt8)
  | launchOk
  | error
  | remove (handle : Nat) (kill : Bool)
  | kill (handle : Nat)
  | text (cmd : String)
  deriving DecidableEq

inductive Answer where
  | ok (address : Option Nat)
  | error
  deriving DecidableEq

-- How far a service is: its first message runs the loader, and `skynet.start` has the start
-- function called later. A service whose file does not call it stays silent.
inductive Life where
  | absent
  | loading
  | starting
  | started
  | silent
  | retired
  deriving DecidableEq

-- `sent` are the messages to the launcher in their order, and `read` is the number of those it has
-- taken. A request is known by its place in `sent`. `created` has the requests that came to a service,
-- with its handle, and `begun` tells whether a start function has returned.
structure System where
  sent : List (Nat × Note)
  read : Nat
  services : Nat → Option (List UInt8)
  instances : Nat → Option Nat
  answers : List (Nat × Answer)
  created : List (Nat × Nat)
  life : Nat → Life
  begun : Nat → Bool

namespace System

def init : System where
  sent := []
  read := 0
  services := fun _ => none
  instances := fun _ => none
  answers := []
  created := []
  life := fun _ => .absent
  begun := fun _ => false

def send (s : System) (notes : List (Nat × Note)) : System := { s with sent := s.sent ++ notes }

def become (s : System) (handle : Nat) (life : Life) : System :=
  { s with life := Function.update s.life handle life }

def retire (s : System) (handle : Nat) : System :=
  if s.life handle = .absent then s else s.become handle .retired

def setService (s : System) (handle : Nat) (service : Option (List UInt8)) : System :=
  { s with services := Function.update s.services handle service }

def respond (s : System) (request : Nat) (answer : Answer) : System :=
  { s with answers := s.answers ++ [(request, answer)] }

-- `local response = instance[handle]`, and what is done with it
def settle (s : System) (handle : Nat) (answer : Answer) : System :=
  match s.instances handle with
  | some request =>
      { s.respond request answer with instances := Function.update s.instances handle none }
  | none => s

def remove (s : System) (handle : Nat) (kill : Bool) : System :=
  (s.setService handle none).settle handle (if kill then .error else .ok none)

-- `inst` is what `skynet.launch` gives.
def launchService (s : System) (request : Nat) (service param : List UInt8)
    (inst : Option Nat) : System :=
  match inst with
  | some inst =>
      { (s.setService inst (some (service ++ 32 :: param))).become inst .loading with
        instances := Function.update s.instances inst (some request)
        created := s.created ++ [(request, inst)]
        begun := Function.update s.begun inst false }
  | none => s.respond request .error

def commandError (s : System) (address : Nat) : System :=
  (s.settle address .error).setService address none

def launchOk (s : System) (address : Nat) : System := s.settle address (.ok (some address))

def kill (s : System) (source handle : Nat) : System :=
  (s.send [(source, .remove handle true)]).retire handle

def dispatch (s : System) (self request source : Nat) (inst : Option Nat) : Note → System
  | .launch service param => s.launchService request service param inst
  | .launchOk => s.launchOk source
  | .error => s.commandError source
  | .remove handle kill => s.remove handle kill
  | .kill handle => (s.kill self handle).setService handle none
  | .text cmd =>
      if cmd = "" then s.launchOk source
      else if cmd = "ERROR" then s.commandError source
      else s

end System

-- What the loader comes to: a file that calls `skynet.start`, one that does not, or an error.
inductive Loaded where
  | starts
  | silent
  | failed
  deriving DecidableEq

inductive Action where
  | newservice (source : Nat) (service param : List UInt8)
  | askKill (source handle : Nat)
  | deliver (inst : Option Nat)
  | load (handle : Nat) (result : Loaded)
  | start (handle : Nat) (ok : Bool)
  | exit (handle : Nat)
  | kill (source handle : Nat)
  | killByName (handle : Nat)
  deriving DecidableEq

variable (self : Nat)

-- `self` is the launcher's handle. A new handle belongs to no context.
def step (s : System) : Action → Option System
  | .newservice source service param => some (s.send [(source, .launch service param)])
  | .askKill source handle => some (s.send [(source, .kill handle)])
  | .deliver inst =>
      match s.sent[s.read]? with
      | none => none
      | some (source, note) =>
          if ∀ handle ∈ inst, s.life handle = .absent ∨ s.life handle = .retired then
            some ({ s with read := s.read + 1 }.dispatch self s.read source inst note)
          else none
  | .load handle result =>
      if s.life handle = .loading then
        match result with
        | .starts => some (s.become handle .starting)
        | .silent => some (s.become handle .silent)
        | .failed => some ((s.send [(handle, .text "ERROR")]).become handle .retired)
      else none
  | .start handle ok =>
      if s.life handle = .starting then
        if ok then
          some { (s.send [(handle, .launchOk)]).become handle .started with
            begun := Function.update s.begun handle true }
        else
          some ((s.send [(handle, .error), (handle, .remove handle false)]).become handle .retired)
      else none
  | .exit handle =>
      if s.life handle = .starting ∨ s.life handle = .started then
        some ((s.send [(handle, .remove handle false)]).become handle .retired)
      else none
  | .kill source handle => some (s.kill source handle)
  | .killByName handle => some (s.retire handle)

-- What a step can do, with what it asks for.
inductive Taken (s : System) : Action → System → Prop where
  | newservice {source : Nat} {service param : List UInt8} :
      Taken s (.newservice source service param) (s.send [(source, .launch service param)])
  | askKill {source handle : Nat} :
      Taken s (.askKill source handle) (s.send [(source, .kill handle)])
  | deliver {inst : Option Nat} {source : Nat} {note : Note}
      (here : s.sent[s.read]? = some (source, note))
      (free : ∀ handle ∈ inst, s.life handle = .absent ∨ s.life handle = .retired) :
      Taken s (.deliver inst) ({ s with read := s.read + 1 }.dispatch self s.read source inst note)
  | starts {handle : Nat} (loading : s.life handle = .loading) :
      Taken s (.load handle .starts) (s.become handle .starting)
  | silent {handle : Nat} (loading : s.life handle = .loading) :
      Taken s (.load handle .silent) (s.become handle .silent)
  | failed {handle : Nat} (loading : s.life handle = .loading) :
      Taken s (.load handle .failed) ((s.send [(handle, .text "ERROR")]).become handle .retired)
  | started {handle : Nat} (starting : s.life handle = .starting) :
      Taken s (.start handle true)
        { (s.send [(handle, .launchOk)]).become handle .started with
          begun := Function.update s.begun handle true }
  | raised {handle : Nat} (starting : s.life handle = .starting) :
      Taken s (.start handle false)
        ((s.send [(handle, .error), (handle, .remove handle false)]).become handle .retired)
  | exit {handle : Nat} (running : s.life handle = .starting ∨ s.life handle = .started) :
      Taken s (.exit handle) ((s.send [(handle, .remove handle false)]).become handle .retired)
  | kill {source handle : Nat} : Taken s (.kill source handle) (s.kill source handle)
  | killByName {handle : Nat} : Taken s (.killByName handle) (s.retire handle)

theorem step_taken {s t : System} {action : Action} (taken : step self s action = some t) :
    Taken self s action t := by
  cases action with
  | newservice | askKill | kill | killByName =>
    cases taken
    constructor
  | deliver inst =>
    simp only [step] at taken
    split at taken
    · cases taken
    · rename_i source note here
      obtain ⟨free, same⟩ := Option.ite_none_right_eq_some.mp taken
      cases same
      exact .deliver here free
  | load handle result =>
    obtain ⟨loading, same⟩ := Option.ite_none_right_eq_some.mp taken
    cases result <;> cases same
    · exact .starts loading
    · exact .silent loading
    · exact .failed loading
  | start handle ok =>
    obtain ⟨starting, same⟩ := Option.ite_none_right_eq_some.mp taken
    cases ok <;> cases same
    · exact .raised starting
    · exact .started starting
  | exit handle =>
    obtain ⟨running, same⟩ := Option.ite_none_right_eq_some.mp taken
    cases same
    exact .exit running

def Fresh (s : System) : Action → Prop
  | .deliver inst => ∀ handle ∈ inst, s.life handle = .absent
  | _ => True

def verdict (source : Nat) : Note → Option (Nat × Answer)
  | .launch _ _ => none
  | .launchOk => some (source, .ok (some source))
  | .error => some (source, .error)
  | .remove handle kill => some (handle, if kill then .error else .ok none)
  | .kill _ => none
  | .text cmd =>
      if cmd = "" then some (source, .ok (some source))
      else if cmd = "ERROR" then some (source, .error)
      else none

def verdictOn (handle : Nat) (note : Nat × Note) : Option Answer :=
  (verdict note.1 note.2).bind fun found => if found.1 = handle then some found.2 else none

end Pskynet.Launcher
