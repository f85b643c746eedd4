import Mathlib.Tactic

set_option autoImplicit false

namespace Pskynet.Stm

structure StmCopy where
  reference : Int32
  sz : UInt32
  msg : List UInt8
  freed : Bool
  deriving DecidableEq

structure StmObject where
  reference : Int32
  copy : Option Nat
  freed : Bool
  deriving DecidableEq

-- A reader's box. `lread` and `ldeletereader` both take two steps on shared memory: the first
-- under the object's lock, the second on the version's own counter.
inductive Reader where
  | live (lastcopy : Option Nat)
  | reading (lastcopy copy : Option Nat)
  | leaving (lastcopy : Option Nat)
  | gone
  deriving DecidableEq

-- `tokens` counts the results of `stm.copy` that no `stm.newcopy` has taken yet. `touched`
-- records that a counter was used after its record had been freed. The object's lock is not part of
-- the state: each locked section is one step.
structure State where
  object : StmObject
  copies : List StmCopy
  writer : Bool
  tokens : Nat
  readers : List Reader
  touched : Bool
  deriving DecidableEq

def stmNewcopy (msg : List UInt8) : StmCopy where
  reference := 1
  sz := UInt32.ofNat msg.length
  msg := msg
  freed := false

def stmNew (msg : List UInt8) : State where
  object := { reference := 1, copy := some 0, freed := false }
  copies := [stmNewcopy msg]
  writer := true
  tokens := 0
  readers := []
  touched := false

def StmCopy.release (copy : StmCopy) : StmCopy :=
  { copy with
    reference := copy.reference - 1
    freed := copy.reference - 1 == 0 }

def State.stmReleasecopy (s : State) : Option Nat → State
  | none => s
  | some id =>
      match s.copies[id]? with
      | none => s
      | some copy =>
          if copy.freed then { s with touched := true }
          else { s with copies := s.copies.set id copy.release }

-- A failed assertion ends the process: there is no next state.
def State.stmRelease (s : State) : Option State :=
  if s.object.freed then some { s with touched := true }
  else if s.object.copy = none then none
  else
    let t := s.stmReleasecopy s.object.copy
    let reference := s.object.reference - 1
    some { t with object := { reference := reference, copy := none, freed := !(0 < reference) } }

def State.stmReleasereader (s : State) : Option State :=
  if s.object.freed then some { s with touched := true }
  else
    let reference := s.object.reference - 1
    if reference = 0 then
      if s.object.copy = none then
        some { s with object := { s.object with reference := reference, freed := true } }
      else none
    else some { s with object := { s.object with reference := reference } }

def State.stmGrab (s : State) : Option State :=
  if s.object.freed then some { s with touched := true }
  else if 0 < s.object.reference then
    some { s with object := { s.object with reference := s.object.reference + 1 } }
  else none

-- The counter that goes up is the object's, as in `stm_grab`, and not the version's.
def State.stmCopy (s : State) : Option (State × Option Nat) :=
  if s.object.freed then some ({ s with touched := true }, none)
  else
    match s.object.copy with
    | none => some (s, none)
    | some ret => s.stmGrab.map fun t => (t, some ret)

def State.stmUpdate (s : State) (msg : List UInt8) : State :=
  if s.object.freed then { s with touched := true }
  else
    { s with
      copies := s.copies ++ [stmNewcopy msg]
      object := { s.object with copy := some s.copies.length } }.stmReleasecopy s.object.copy

-- The second half of `lread`: the box's new version, and what the given function is called with.
def State.lread (s : State) (lastcopy copy : Option Nat) :
    State × Option Nat × Option (List UInt8 × UInt32) :=
  if copy = lastcopy then (s.stmReleasecopy copy, lastcopy, none)
  else (s.stmReleasecopy lastcopy, copy,
    (copy.bind (s.copies[·]?)).map fun version => (version.msg, version.sz))

inductive Action where
  | update (msg : List UInt8)
  | copy
  | deletewriter
  | newcopy
  | fetch (r : Nat)
  | finish (r : Nat)
  | releasereader (r : Nat)
  | releasecopy (r : Nat)
  deriving DecidableEq

def State.setReader (s : State) (r : Nat) (reader : Reader) : State :=
  { s with readers := s.readers.set r reader }

def step (s : State) : Action → Option State
  | .update msg => if s.writer then some (s.stmUpdate msg) else none
  | .copy =>
      if s.writer then s.stmGrab.map fun t => { t with tokens := t.tokens + 1 } else none
  | .deletewriter =>
      if s.writer then s.stmRelease.map fun t => { t with writer := false } else none
  | .newcopy =>
      if 0 < s.tokens then
        some { s with tokens := s.tokens - 1, readers := s.readers ++ [.live none] }
      else none
  | .fetch r =>
      match s.readers[r]? with
      | some (.live lastcopy) =>
          s.stmCopy.map fun (t, copy) => t.setReader r (.reading lastcopy copy)
      | _ => none
  | .finish r =>
      match s.readers[r]? with
      | some (.reading lastcopy copy) =>
          let (t, kept, _) := s.lread lastcopy copy
          some (t.setReader r (.live kept))
      | _ => none
  | .releasereader r =>
      match s.readers[r]? with
      | some (.live lastcopy) =>
          s.stmReleasereader.map fun t => t.setReader r (.leaving lastcopy)
      | _ => none
  | .releasecopy r =>
      match s.readers[r]? with
      | some (.leaving lastcopy) => some ((s.stmReleasecopy lastcopy).setReader r .gone)
      | _ => none

end Pskynet.Stm
