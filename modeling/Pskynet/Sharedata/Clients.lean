import Pskynet.Shared.Mailbox
import Pskynet.Shared.Transition
import Pskynet.Sharedata.Service

set_option autoImplicit false

namespace Pskynet.Sharedata

open Lua

inductive Request where
  | query (name : Scalar)
  | confirm (obj : Nat)
  | monitor (root : Nat) (name : Scalar) (obj : Nat)
  deriving DecidableEq

-- `raised` ends the call of a `monitor` coroutine, or that of a query, with an error.
inductive Reply where
  | queried (name : Scalar) (obj : Nat)
  | monitored (root : Nat) (obj : Option Nat)
  | raised (root : Option Nat)
  deriving DecidableEq

-- A table that `sharedata.query` returned: its object, the one to update to, and whether its
-- `monitor` coroutine lives.
structure Root where
  name : Scalar
  obj : Nat
  update : Option Nat
  monitored : Bool

-- The service, its clients and the messages between them. A root is none when it is garbage,
-- `boxes` are the userdata of `core.box` that are not collected, and `forked` the `monitor` coroutines
-- that have not run yet.
structure System where
  server : State
  requests : List (Nat × Request)
  replies : List (Nat × Reply)
  roots : Nat → List (Option Root)
  boxes : List (Nat × Nat)
  forked : List (Nat × Nat)

inductive Action where
  | new (name : Scalar) (t : LuaValue)
  | update (name : Scalar) (t : LuaValue)
  | delete (name : Scalar)
  | ask (client : Nat) (name : Scalar)
  | serve (client : Nat)
  | receive (client : Nat)
  | watch (client root : Nat)
  | access (client root : Nat)
  | drop (client root : Nat)
  | release (client obj : Nat)
  | collect

def keeps (root : Option Root) (obj : Nat) : Nat :=
  match root with
  | none => 0
  | some r => (if r.obj = obj then 1 else 0) + if r.update = some obj then 1 else 0

namespace System

def start : System where
  server := .start
  requests := []
  replies := []
  roots := fun _ => []
  boxes := []
  forked := []

def request (s : System) (client : Nat) (request : Request) : System :=
  { s with requests := s.requests ++ [(client, request)] }

def reply (s : System) (client : Nat) (reply : Reply) : System :=
  { s with replies := s.replies ++ [(client, reply)] }

def respond (s : System) (watch : List Watch) (obj : Option Nat) : System :=
  { s with replies := s.replies ++ watch.map fun w => (w.client, .monitored w.root obj) }

def box (s : System) (client obj : Nat) : System :=
  { s with server := s.server.incref obj, boxes := s.boxes ++ [(client, obj)] }

def root (s : System) (client root : Nat) : Option Root := (s.roots client)[root]?.join

def setRoot (s : System) (client root : Nat) (r : Option Root) : System :=
  { s with roots := Function.update s.roots client ((s.roots client).set root r) }

def addRoot (s : System) (client : Nat) (r : Root) : System :=
  { s with roots := Function.update s.roots client (s.roots client ++ [some r]) }

def update (host : Host) (s : System) (name : Scalar) (t : LuaValue) : System :=
  match s.server.update host name t with
  | (server, .error _) => { s with server := server }
  | (server, .ok (watch, obj)) => { s with server := server }.respond watch (some obj)

def delete (s : System) (name : Scalar) : System :=
  match s.server.delete name with
  | (server, .error _) => { s with server := server }
  | (server, .ok watch) => { s with server := server }.respond watch none

def handle (s : System) (client : Nat) : Request → System
  | .query name =>
      match s.server.query name with
      | (server, .error _) => { s with server := server }.reply client (.raised none)
      | (server, .ok obj) => { s with server := server }.reply client (.queried name obj)
  | .confirm obj => { s with server := s.server.confirm obj }
  | .monitor root name obj =>
      match s.server.monitor name obj ⟨client, root⟩ with
      | (server, .error _) => { s with server := server }.reply client (.raised (some root))
      | (server, .ok (some obj)) =>
          { s with server := server }.reply client (.monitored root (some obj))
      | (server, .ok none) => { s with server := server }

def finish (s : System) (client root : Nat) : System :=
  match s.root client root with
  | none => s
  | some r => s.setRoot client root (some { r with monitored := false })

-- `sd.update`: the boxed object must be dirty, and the new one another.
def updateRoot (s : System) (client root obj : Nat) : System :=
  match s.root client root with
  | none => s
  | some r =>
      if s.server.dirty r.obj then
        if r.obj = obj then (s.box client obj).finish client root
        else
          ((s.box client obj).setRoot client root (some { r with update := some obj })).request
            client (.monitor root r.name obj)
      else s.finish client root

def resume (s : System) (client : Nat) : Reply → System
  | .queried name obj =>
      let r : Root := { name := name, obj := obj, update := none, monitored := true }
      { ((s.box client obj).addRoot client r).request client (.confirm obj) with
        forked := s.forked ++ [(client, (s.roots client).length)] }
  | .monitored root (some obj) => s.updateRoot client root obj
  | .monitored root none | .raised (some root) => s.finish client root
  | .raised none => s

def access (s : System) (client root : Nat) : System :=
  match s.root client root with
  | none => s
  | some r =>
      match r.update with
      | some obj =>
          if s.server.dirty r.obj then
            s.setRoot client root (some { r with obj := obj, update := none })
          else s
      | none => s

def watch (s : System) (client root : Nat) : System :=
  match s.root client root with
  | none => s
  | some r => s.request client (.monitor root r.name r.obj)

def kept (s : System) (client obj : Nat) : Nat :=
  ((s.roots client).map fun root => keeps root obj).sum

end System

def step (host : Host) (s : System) : Action → Option System
  | .new name t => some { s with server := (s.server.new host name t).1 }
  | .update name t => some (s.update host name t)
  | .delete name => some (s.delete name)
  | .ask client name => some (s.request client (.query name))
  | .serve client =>
      (Mailbox.take client s.requests).map fun taken =>
        { s with requests := taken.2 }.handle client taken.1
  | .receive client =>
      (Mailbox.take client s.replies).map fun taken =>
        { s with replies := taken.2 }.resume client taken.1
  | .watch client root =>
      if (client, root) ∈ s.forked then
        some ({ s with forked := s.forked.erase (client, root) }.watch client root)
      else none
  | .access client root => some (s.access client root)
  | .drop client root =>
      match s.root client root with
      | none => none
      | some r => if r.monitored then none else some (s.setRoot client root none)
  | .release client obj =>
      if s.kept client obj < s.boxes.count (client, obj) then
        some { s with server := s.server.decref obj, boxes := s.boxes.erase (client, obj) }
      else none
  | .collect => some { s with server := s.server.collectobj }

def used (s : System) : Action → Option Nat
  | .receive client =>
      (Mailbox.take client s.replies).bind fun taken =>
        match taken.1 with
        | .queried _ obj => some obj
        | .monitored root (some obj) =>
            (s.root client root).bind fun r => if s.server.dirty r.obj then some obj else none
        | .monitored _ none | .raised _ => none
  | .access client root =>
      (s.root client root).bind fun r => if s.server.dirty r.obj then r.update else none
  | _ => none

def Uncarried (s : System) : Action → Prop
  | .collect => ∀ obj, s.server.collectable obj →
      ∀ client root, (client, Reply.monitored root (some obj)) ∉ s.replies
  | _ => True

end Pskynet.Sharedata
