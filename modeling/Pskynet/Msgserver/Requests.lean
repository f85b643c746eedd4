import Pskynet.Netpack.Reassembly
import Pskynet.Shared.Mailbox
import Pskynet.Shared.Transition

set_option autoImplicit false

namespace Pskynet.Msgserver

abbrev Session := List UInt8

-- `{ return_fd , response, version, index }`, made for the request with a session.
structure Entry where
  returnFd : Option Nat
  response : Option (List UInt8)
  version : Option Nat
  index : Option Nat
  session : Session
  request : Nat

structure Asked where
  request : Nat
  received : Bool

-- One user and its client. Every table that `do_request` makes stands in `entries`, and `response`
-- says which of them is in the cache. A request is known by its place in `asked`; `latest` is the last
-- one of a session that was handled and `retired` are those of which the entry was retired.
structure Server where
  version : Nat
  index : Nat
  response : Session → Option Nat
  entries : List Entry
  running : List (Nat × Nat)
  opened : List Nat
  connection : List Nat
  requests : List (Nat × Session × Nat)
  responses : List (Nat × Session × List UInt8)
  client : Session → Option Asked
  asked : List Session
  latest : Session → Option Nat
  retired : List Nat

def packString (text : List UInt8) : Option (List UInt8) :=
  if text.length > 0x10000 then none else some (Netpack.frame text)

namespace Server

def start : Server where
  version := 0
  index := 0
  response := fun _ => none
  entries := []
  running := []
  opened := []
  connection := []
  requests := []
  responses := []
  client := fun _ => none
  asked := []
  latest := fun _ => none
  retired := []

def invocations (s : Server) : List (Session × Nat) :=
  s.entries.map fun p => (p.session, p.request)

def setEntry (s : Server) (i : Nat) (p : Entry) : Server := { s with entries := s.entries.set i p }

def closeclient (s : Server) (fd : Nat) : Server := { s with opened := s.opened.erase fd }

def clear (s : Server) (session : Session) : Server :=
  { s with response := Function.update s.response session none }

def complete (s : Server) (i : Nat) (p : Entry) : Bool :=
  s.response p.session == some i && p.returnFd.isNone

def expires (expired : Nat) (s : Server) (i : Nat) (p : Entry) : Bool :=
  s.complete i p && decide (p.index.getD 0 < expired)

def ages (expired : Nat) (s : Server) (i : Nat) (p : Entry) : Bool :=
  s.complete i p && !decide (p.index.getD 0 < expired)

def retireResponse (expired : Nat) (s : Server) : Server :=
  if expired * 2 ≤ s.index then
    let aged := (s.entries.zipIdx.filter fun (p, i) => s.ages expired i p).map fun (p, _) =>
      p.index.getD 0 - expired
    let gone := s.entries.zipIdx.filter fun (p, i) => s.expires expired i p
    { s with
      entries := s.entries.mapIdx fun i p =>
        if s.ages expired i p then { p with index := p.index.map (· - expired) } else p
      response := fun session => (s.response session).filter fun i =>
        !(s.entries[i]?.any fun p => s.expires expired i p)
      index := aged.foldl max 0 + 1
      retired := s.retired ++ gone.map fun (p, _) => p.request }
  else s

def send (s : Server) (fd : Nat) (session : Session) (text : List UInt8) : Server :=
  if fd ∈ s.connection then { s with responses := s.responses ++ [(fd, session, text)] } else s

-- The end of `do_request`, from the increment of `u.index`.
def answer (expired : Nat) (s : Server) (i : Nat) (p : Entry) : Server :=
  let after := { s with index := s.index + 1 }
  let sent := match p.returnFd, p.response with
    | some fd, some text => after.send fd p.session text
    | _, _ => after
  (sent.setEntry i { p with returnFd := none }).retireResponse expired

def invoke (s : Server) (fd : Nat) (session : Session) (request : Nat) : Server :=
  { s with
    entries := s.entries ++ [⟨some fd, none, none, none, session, request⟩]
    response := Function.update s.response session (some s.entries.length)
    running := s.running ++ [(s.entries.length, fd)] }

-- `do_request` until the handler yields, and `request` where it raises.
def doRequest (expired : Nat) (s : Server) (fd : Nat) (session : Session) (request : Nat) : Server :=
  if fd ∈ s.connection then
    match s.response session with
    | none => s.invoke fd session request
    | some i =>
      match s.entries[i]? with
      | none => s
      | some p =>
        if p.version = some s.version then
          match p.response with
          | none => (s.clear session).closeclient fd
          | some _ => (s.clear session).invoke fd session request
        else
          let again := { p with
            returnFd := some fd
            version := some s.version
            index := some s.index }
          match p.response with
          | none => s.setEntry i again
          | some _ => (s.setEntry i again).answer expired i again
  else s

def finish (expired : Nat) (s : Server) (i fd : Nat) (ok : Bool) (result : List UInt8) : Server :=
  match s.entries[i]? with
  | none => s
  | some p =>
    match packString (if ok then result ++ 1 :: p.session else 0 :: p.session) with
    | none => if fd ∈ s.connection then s.closeclient fd else s
    | some text =>
      let done := { p with
        response := some text
        version := some s.version
        index := some s.index }
      (s.setEntry i done).answer expired i done

end Server

inductive Action where
  | connect (fd index : Nat)
  | disconnect (fd : Nat)
  | ask (fd : Nat) (session : Session)
  | resend (fd : Nat) (session : Session)
  | message (fd : Nat)
  | finish (entry : Nat) (ok : Bool) (result : List UInt8)
  | receive (fd : Nat)

def step (expired : Nat) (s : Server) : Action → Option Server
  -- `do_auth` with the right secret.
  | .connect fd index =>
      if fd ∈ s.connection ∨ index ≤ s.version then none
      else some { s with
        version := index
        opened := fd :: s.opened
        connection := fd :: s.connection }
  | .disconnect fd =>
      some { s with
        opened := s.opened.filter (· ≠ fd)
        connection := s.connection.filter (· ≠ fd)
        requests := s.requests.filter (·.1 ≠ fd) }
  | .ask fd session =>
      if fd ∈ s.connection ∧ (s.client session).all (·.received) then
        some { s with
          client := Function.update s.client session (some ⟨s.asked.length, false⟩)
          asked := s.asked ++ [session]
          requests := s.requests ++ [(fd, session, s.asked.length)] }
      else none
  | .resend fd session =>
      match s.client session with
      | some last =>
          if fd ∈ s.connection ∧ !last.received then
            some { s with requests := s.requests ++ [(fd, session, last.request)] }
          else none
      | none => none
  | .message fd =>
      (Mailbox.take fd s.requests).map fun ((session, request), rest) =>
        if fd ∈ s.opened then
          { s with
            requests := rest
            latest := Function.update s.latest session (some request) }.doRequest expired fd
              session request
        else { s with requests := rest }
  | .finish i ok result =>
      (Mailbox.take i s.running).map fun (fd, rest) =>
        { s with running := rest }.finish expired i fd ok result
  | .receive fd =>
      (Mailbox.take fd s.responses).map fun ((session, _), rest) =>
        { s with
          responses := rest
          client := Function.update s.client session
            ((s.client session).map fun last => { last with received := true }) }

end Pskynet.Msgserver
