import Pskynet.Gate.Databuffer

set_option autoImplicit false

namespace Pskynet.Gate

def ptypeText : UInt32 := 0

def ptypeTagDontcopy : UInt32 := 0x10000

structure Gate where
  watchdog : UInt32
  broker : UInt32
  clientTag : UInt32
  style : HeaderStyle
  deriving DecidableEq, Repr

structure Connection where
  id : Int
  agent : UInt32
  client : UInt32
  buffer : Databuffer
  deriving DecidableEq, Repr

-- The arguments of `skynet_send`. The data is the text of the gate and then the body.
structure Send where
  source : UInt32
  destination : UInt32
  type : UInt32
  session : Int
  text : List UInt8
  body : List UInt8
  deriving DecidableEq, Repr

def Send.data (m : Send) : List UInt8 := m.text ++ m.body

inductive Output where
  | send (message : Send)
  | close (id : Int)
  | error (text : String)
  deriving DecidableEq, Repr

def dataText (id : Int) : List UInt8 := (toString id ++ " data ").toUTF8.toList

-- Whom `_forward` sends to, and how.
def receiver (g : Gate) (c : Connection) : Option (List UInt8 → Send) :=
  if g.broker ≠ 0 then
    some fun body =>
      { source := 0, destination := g.broker, type := g.clientTag ||| ptypeTagDontcopy, session := 0
        text := [], body := body }
  else if c.agent ≠ 0 then
    some fun body =>
      { source := c.client, destination := c.agent, type := g.clientTag ||| ptypeTagDontcopy
        session := 0, text := [], body := body }
  else if g.watchdog ≠ 0 then
    some fun body =>
      { source := 0, destination := g.watchdog, type := ptypeText ||| ptypeTagDontcopy, session := 0
        text := dataText c.id, body := body }
  else none

def forward (g : Gate) (c : Connection) (size : Nat) : Option (Connection × List Output) :=
  match receiver g c with
  | some send =>
      (databufferRead c.buffer size).map fun (body, buffer) =>
        ({ c with buffer := buffer }, [.send (send body)])
  | none => some (c, [])

-- What a dispatch leaves and does, and for each frame that was given to `_forward` its size and
-- the number of bytes that left the buffer.
structure Dispatched where
  connection : Connection
  outputs : List Output
  handled : List (Nat × Nat)
  deriving DecidableEq, Repr

def Dispatched.behind (before : List Output) (frames : List (Nat × Nat)) (d : Dispatched) :
    Dispatched :=
  { d with outputs := before ++ d.outputs, handled := frames ++ d.handled }

def sizeLimit : Int32 := 0x1000000

def tooLarge (id : Int) : List Output := [.close id, .error "Recv socket message > 16M"]

-- The loop of `dispatch_message`, at most `fuel` turns of it.
def dispatchLoop (g : Gate) (id : Int) : Nat → Connection → Option Dispatched
  | 0, _ => none
  | fuel + 1, c => do
      let (size, buffer) ← databufferReadheader c.buffer g.style
      let c := { c with buffer := buffer }
      if size < 0 then some { connection := c, outputs := [], handled := [] }
      else if 0 < size then
        if sizeLimit ≤ size then
          some { connection := { c with buffer := databufferClear c.buffer }, outputs := tooLarge id,
                 handled := [] }
        else do
          let (left, sent) ← forward g c size.toInt.toNat
          let removed := c.buffer.unread.length - left.buffer.unread.length
          let later ← dispatchLoop g id fuel { left with buffer := databufferReset left.buffer }
          some (later.behind sent [(size.toInt.toNat, removed)])
      else dispatchLoop g id fuel c

def dispatchMessage (g : Gate) (c : Connection) (id : Int) (data : List UInt8) :
    Option Dispatched :=
  let pushed := { c with buffer := databufferPush c.buffer data }
  dispatchLoop g id (2 * pushed.buffer.unread.length + 2) pushed

end Pskynet.Gate
