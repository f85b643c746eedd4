import Pskynet.Crypt.Base64Text
import Pskynet.Crypt.DesText
import Pskynet.Crypt.KeyExchange
import Pskynet.Shared.Transition

set_option autoImplicit false

namespace Pskynet.Loginserver

open Crypt

structure Pipe where
  buffer : List UInt8
  wire : List UInt8
  deriving DecidableEq

namespace Pipe

def empty : Pipe := ⟨[], []⟩

def rest (p : Pipe) : List UInt8 := p.buffer ++ p.wire

def write (p : Pipe) (text : List UInt8) : Pipe := { p with wire := p.wire ++ text }

def deliver (p : Pipe) (n : Nat) : Pipe := ⟨p.buffer ++ p.wire.take n, p.wire.drop n⟩

def readline (p : Pipe) : Option (List UInt8 × Pipe) :=
  if 10 ∈ p.buffer then
    some (p.buffer.takeWhile (· ≠ 10), { p with buffer := (p.buffer.dropWhile (· ≠ 10)).tail })
  else none

end Pipe

-- What the two sides bring to a login, and the handlers of the login server. `loggedIn` tells
-- whether a login of the user is going on.
structure Setting where
  challenge : List UInt8
  serverkey : List UInt8
  clientkey : List UInt8
  token : List UInt8
  authHandler : List UInt8 → Option (List UInt8 × List UInt8)
  loggedIn : Bool
  loginHandler : List UInt8 → List UInt8 → List UInt8 → Option (List UInt8)

inductive Server where
  | start
  | handshake
  | response (secret : List UInt8)
  | token (secret : List UInt8)
  | done (secret token : List UInt8)
  | closed
  deriving DecidableEq

inductive Client where
  | challenge
  | exchange (challenge : List UInt8)
  | result (secret : List UInt8)
  | done (secret subid : List UInt8)
  | refused (secret line : List UInt8)
  | raised
  deriving DecidableEq

structure Login where
  server : Server
  client : Client
  up : Pipe
  down : Pipe
  deriving DecidableEq

namespace Setting

variable (s : Setting)

def line (text : List UInt8) : Option (List UInt8) :=
  (b64encode text).toOption.map fun code => code ++ [10]

def exchangeKeys (handshake : List UInt8) : Option (List UInt8 × List UInt8) := do
  let clientkey ← (b64decode handshake).toOption
  guard (clientkey.length = 8)
  let key ← (dhexchange s.serverkey).toOption
  let text ← line key
  let secret ← (dhsecret clientkey s.serverkey).toOption
  pure (text, secret)

def checkResponse (secret response : List UInt8) : Option Bool := do
  let hmac ← (hmac64 s.challenge secret).toOption
  let given ← (b64decode response).toOption
  pure (hmac = given)

def readToken (secret etoken : List UInt8) : Option (List UInt8) := do
  let code ← (b64decode etoken).toOption
  (desdecode secret code).toOption

def badRequest : List UInt8 := [52, 48, 48, 32, 66, 97, 100, 32, 82, 101, 113, 117, 101, 115, 116, 10]

def unauthorized : List UInt8 :=
  [52, 48, 49, 32, 85, 110, 97, 117, 116, 104, 111, 114, 105, 122, 101, 100, 10]

def forbidden : List UInt8 := [52, 48, 51, 32, 70, 111, 114, 98, 105, 100, 100, 101, 110, 10]

def notAcceptable : List UInt8 :=
  [52, 48, 54, 32, 78, 111, 116, 32, 65, 99, 99, 101, 112, 116, 97, 98, 108, 101, 10]

-- What `accept` writes, with what the slave has called `auth_handler` with
def accept (token secret : List UInt8) : Option (List UInt8) :=
  match s.authHandler token with
  | none => some unauthorized
  | some (server, uid) =>
      if s.loggedIn then some notAcceptable
      else
        match s.loginHandler server uid secret with
        | some subid => (line subid).map fun text => [50, 48, 48, 32] ++ text
        | none => some forbidden

def keysExchanged : Option (List UInt8 × List UInt8) → Server × List UInt8
  | some (text, secret) => (.response secret, text)
  | none => (.closed, [])

def responseChecked (secret : List UInt8) : Option Bool → Server × List UInt8
  | some true => (.token secret, [])
  | some false => (.closed, badRequest)
  | none => (.closed, [])

def accepted (secret token : List UInt8) : Option (List UInt8) → Server × List UInt8
  | some text => (.done secret token, text)
  | none => (.closed, [])

def tokenRead (secret : List UInt8) : Option (List UInt8) → Server × List UInt8
  | some token => accepted secret token (s.accept token secret)
  | none => (.closed, [])

def serve : Server → List UInt8 → Server × List UInt8
  | .handshake, handshake => keysExchanged (s.exchangeKeys handshake)
  | .response secret, response => responseChecked secret (s.checkResponse secret response)
  | .token secret, etoken => s.tokenRead secret (readToken secret etoken)
  | server, _ => (server, [])

def answerChallenge (challenge : List UInt8) : Option (List UInt8 × List UInt8) := do
  let challenge ← (b64decode challenge).toOption
  let key ← (dhexchange s.clientkey).toOption
  let text ← line key
  pure (challenge, text)

def answerKey (challenge key : List UInt8) : Option (List UInt8 × List UInt8) := do
  let serverkey ← (b64decode key).toOption
  let secret ← (dhsecret serverkey s.clientkey).toOption
  let hmac ← (hmac64 challenge secret).toOption
  let response ← line hmac
  let etoken ← (desencode secret s.token).toOption
  let text ← line etoken
  pure (secret, response ++ text)

def challengeAnswered : Option (List UInt8 × List UInt8) → Client × List UInt8
  | some (challenge, text) => (.exchange challenge, text)
  | none => (.raised, [])

def keyAnswered : Option (List UInt8 × List UInt8) → Client × List UInt8
  | some (secret, text) => (.result secret, text)
  | none => (.raised, [])

def readResult (secret result : List UInt8) : Client :=
  if result.take 3 = [50, 48, 48] then
    ((b64decode (result.drop 4)).toOption.map fun subid => Client.done secret subid).getD .raised
  else .refused secret result

def follow : Client → List UInt8 → Client × List UInt8
  | .challenge, line => challengeAnswered (s.answerChallenge line)
  | .exchange challenge, line => keyAnswered (s.answerKey challenge line)
  | .result secret, line => (readResult secret line, [])
  | client, _ => (client, [])

end Setting

namespace Login

def start : Login := ⟨.start, .challenge, .empty, .empty⟩

def begin_ (l : Login) : Option (List UInt8) → Login
  | some text => { l with server := .handshake, down := l.down.write text }
  | none => { l with server := .closed }

-- `socket.abandon` clears the buffer of a slave that is done.
def served (l : Login) (up : Pipe) : Server × List UInt8 → Login
  | (.done secret token, text) =>
      { l with server := .done secret token, up := { up with buffer := [] }, down := l.down.write text }
  | (server, text) => { l with server, up, down := l.down.write text }

def followed (l : Login) (down : Pipe) (next : Client × List UInt8) : Login :=
  { l with client := next.1, down, up := l.up.write next.2 }

end Login

inductive Action where
  | begin
  | serve
  | follow
  | toServer (n : Nat)
  | toClient (n : Nat)

def limit : Nat := 8192

def reading : Server → Bool
  | .handshake | .response _ | .token _ => true
  | _ => false

def awaiting : Client → Bool
  | .challenge | .exchange _ | .result _ => true
  | _ => false

def step (s : Setting) (l : Login) : Action → Option Login
  | .begin => if l.server = .start then some (l.begin_ (Setting.line s.challenge)) else none
  | .serve =>
      if reading l.server then
        l.up.readline.map fun read => l.served read.2 (s.serve l.server read.1)
      else none
  | .follow =>
      if awaiting l.client then
        l.down.readline.map fun read => l.followed read.2 (s.follow l.client read.1)
      else none
  | .toServer n =>
      if 0 < n ∧ n ≤ l.up.wire.length then
        let up := l.up.deliver n
        if reading l.server ∧ limit < up.buffer.length then some { l with server := .closed, up }
        else some { l with up }
      else none
  | .toClient n =>
      if 0 < n ∧ n ≤ l.down.wire.length then some { l with down := l.down.deliver n } else none

end Pskynet.Loginserver
