import Pskynet.Shared.CInt
import Pskynet.Shared.Linked

set_option autoImplicit false

namespace Pskynet.Buffer

open CInt

-- A node of a chunk is a number. Its `msg` is the block it points to, `none` for NULL.
structure Node where
  msg : Option (List UInt8)
  sz : Int
  next : Option Nat

structure SocketBuffer where
  size : Int
  offset : Int
  head : Option Nat
  tail : Option Nat

-- The pool table: `free` is pool[1] and `rawlen` the length of the table.
structure Pool where
  free : Option Nat
  rawlen : Nat

structure State where
  node : Nat → Node
  made : Nat
  pool : Pool
  buffer : Nat → SocketBuffer

def lnewbuffer : SocketBuffer := { size := 0, offset := 0, head := none, tail := none }

def init : State where
  node := fun _ => { msg := none, sz := 0, next := none }
  made := 0
  pool := { free := none, rawlen := 0 }
  buffer := fun _ => lnewbuffer

def State.setNode (state : State) (n : Nat) (node : Node) : State :=
  { state with node := Function.update state.node n node }

def State.setBuffer (state : State) (b : Nat) (sb : SocketBuffer) : State :=
  { state with buffer := Function.update state.buffer b sb }

def State.setFree (state : State) (free : Option Nat) : State :=
  { state with pool := { state.pool with free } }

-- `len` bytes of a block from `offset` on; `none` is a Lua error or a read outside the block.
def slice (msg : Option (List UInt8)) (offset len : Int) : Option (List UInt8) :=
  match msg with
  | none => none
  | some block =>
      if 0 ≤ offset ∧ 0 ≤ len ∧ offset + len ≤ block.length then
        some ((block.drop offset.toNat).take len.toNat)
      else none

def LARGE_PAGE_NODE : Nat := 12

-- The chunk of `sz` nodes that starts at `made`, each linked to the one behind it.
def lnewpool (state : State) (sz : Nat) : State :=
  { state with
    node := fun n =>
      if state.made ≤ n ∧ n < state.made + sz then
        { msg := none
          sz := 0
          next := if n + 1 = state.made + sz then none else some (n + 1) }
      else state.node n
    made := state.made + sz }

def freeNode (state : State) : State × Nat :=
  match state.pool.free with
  | some node => (state, node)
  | none =>
      let tsz := if state.pool.rawlen = 0 then 1 else state.pool.rawlen
      let size := if tsz ≤ LARGE_PAGE_NODE - 3 then 8 <<< tsz else 8 <<< (LARGE_PAGE_NODE - 3)
      let pool := lnewpool state size
      ({ pool with pool := { pool.pool with rawlen := tsz + 1 } }, state.made)

-- The results below are `none` for a Lua error, a failed assertion, an overflow, a NULL that is
-- followed or a read outside a block.
def linkNode (state : State) (b free_node : Nat) : Option State :=
  let sb := state.buffer b
  match sb.head, sb.tail with
  | none, none =>
      some (state.setBuffer b { sb with head := some free_node, tail := some free_node })
  | some _, some tail =>
      some ((state.setNode tail { state.node tail with next := some free_node }).setBuffer b
        { sb with tail := some free_node })
  | _, _ => none

def lpushbuffer (state : State) (b : Nat) (msg : List UInt8) : Option (State × Int) := do
  let sz := toInt msg.length
  let (taken, free_node) := freeNode state
  let filled := (taken.setFree (taken.node free_node).next).setNode free_node
    { msg := some msg, sz, next := none }
  let linked ← linkNode filled b free_node
  let size ← arith ((linked.buffer b).size + sz)
  some (linked.setBuffer b { linked.buffer b with size }, size)

def returnFreeNode (state : State) (b : Nat) : Option State := do
  let sb := state.buffer b
  let free_node ← sb.head
  let head := (state.node free_node).next
  let tail := if head = none then none else sb.tail
  let popped := state.setBuffer b { sb with offset := 0, head, tail }
  let emptied := popped.setNode free_node { msg := none, sz := 0, next := popped.pool.free }
  some (emptied.setFree (some free_node))

-- The loop of pop_lstring at the node `current`; `out` is what is in the luaL_Buffer.
def popLoop (b : Nat) (skip : Int) : Nat → State → Nat → Int → List UInt8 →
    Option (State × List UInt8)
  | 0, _, _, _, _ => none
  | fuel + 1, state, current, sz, out => do
      let node := state.node current
      let offset := (state.buffer b).offset
      let bytes := node.sz - offset
      if bytes ≥ sz then
        let added ← (if sz > skip then slice node.msg offset (sz - skip) else some [])
        let moved := state.setBuffer b { state.buffer b with offset := offset + sz }
        let state ← (if bytes = sz then returnFreeNode moved b else some moved)
        some (state, out ++ added)
      else
        let added ← slice node.msg offset (if sz - skip < bytes then sz - skip else bytes)
        let state ← returnFreeNode state b
        if sz - bytes = 0 then some (state, out ++ added)
        else
          let current ← (state.buffer b).head
          popLoop b skip fuel state current (sz - bytes) (out ++ added)

-- A list holds each node at most once, so no loop over one takes more than `made` rounds.
def popLstring (state : State) (b : Nat) (sz skip : Int) : Option (State × List UInt8) := do
  let sb := state.buffer b
  let current ← sb.head
  let node := state.node current
  if sz < node.sz - sb.offset then
    let bytes ← slice node.msg sb.offset (sz - skip)
    some (state.setBuffer b { sb with offset := sb.offset + sz }, bytes)
  else if sz = node.sz - sb.offset then
    let bytes ← slice node.msg sb.offset (sz - skip)
    let state ← returnFreeNode state b
    some (state, bytes)
  else popLoop b skip (state.made + 1) state current sz []

def lpopbuffer (state : State) (b : Nat) (n : Nat) : Option (State × Option (List UInt8) × Int) :=
  let sz := toInt n
  let sb := state.buffer b
  if sb.size < sz ∨ sz = 0 then some (state, none, sb.size)
  else do
    let (popped, bytes) ← popLstring state b sz 0
    let size := (popped.buffer b).size - sz
    some (popped.setBuffer b { popped.buffer b with size }, some bytes, size)

def clearLoop (b : Nat) : Nat → State → Option State
  | 0, _ => none
  | fuel + 1, state =>
      match (state.buffer b).head with
      | none => some state
      | some _ => do
          let state ← returnFreeNode state b
          clearLoop b fuel state

def lclearbuffer (state : State) (b : Nat) : Option State := do
  let cleared ← clearLoop b (state.made + 1) state
  some (cleared.setBuffer b { cleared.buffer b with size := 0 })

def readLoop (b : Nat) : Nat → State → List UInt8 → Option (State × List UInt8)
  | 0, _, _ => none
  | fuel + 1, state, out =>
      match (state.buffer b).head with
      | none => some (state, out)
      | some current => do
          let node := state.node current
          let offset := (state.buffer b).offset
          let added ← slice node.msg offset (node.sz - offset)
          let state ← returnFreeNode state b
          readLoop b fuel state (out ++ added)

def lreadall (state : State) (b : Nat) : Option (State × List UInt8) := do
  let (cleared, bytes) ← readLoop b (state.made + 1) state []
  some (cleared.setBuffer b { cleared.buffer b with size := 0 }, bytes)

end Pskynet.Buffer
