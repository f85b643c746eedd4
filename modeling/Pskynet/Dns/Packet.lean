import Pskynet.Shared.LittleEndian
import Pskynet.Shared.Loop

set_option autoImplicit false

namespace Pskynet.Dns

open LittleEndian

abbrev Chunk := List UInt8

-- `posrelat` and the check of `str_unpack`. A place counts from 0, and `left` from 1 or, if it is
-- negative, from the end.
def start (chunk : Chunk) (left : Int) : Except String Nat :=
  let pos := if 0 ≤ left then left else if chunk.length < -left then 0 else chunk.length + left + 1
  if 1 ≤ pos ∧ pos ≤ chunk.length + 1 then .ok (pos - 1).toNat
  else .error "initial position out of string"

section

variable (chunk : Chunk)

def unpackInt (size pos : Nat) : Except String (Nat × Nat) :=
  if chunk.length < pos + size then .error "data string too short"
  else .ok (value ((chunk.drop pos).take size).reverse, pos + size)

-- A string with its length in `size` bytes before it
def unpackString (size pos : Nat) : Except String (List UInt8 × Nat) :=
  unpackInt chunk size pos >>= fun (len, pos) =>
    if chunk.length < pos + len then .error "data string too short"
    else .ok ((chunk.drop pos).take len, pos + len)

-- `string.unpack(format, chunk, left)` with what the format reads from a place
def unpack {α : Type} (read : Nat → Except String (α × Nat)) (left : Int) :
    Except String (α × Int) :=
  start chunk left >>= fun pos => (read pos).map fun (a, pos) => (a, pos + 1)

end

structure Header where
  tid : Nat
  flags : Nat
  qdcount : Nat
  ancount : Nat
  nscount : Nat
  arcount : Nat
  deriving DecidableEq, Repr

def readHeader (chunk : Chunk) (pos : Nat) : Except String (Header × Nat) :=
  unpackInt chunk 2 pos >>= fun (tid, pos) =>
    unpackInt chunk 2 pos >>= fun (flags, pos) =>
      unpackInt chunk 2 pos >>= fun (qdcount, pos) =>
        unpackInt chunk 2 pos >>= fun (ancount, pos) =>
          unpackInt chunk 2 pos >>= fun (nscount, pos) =>
            (unpackInt chunk 2 pos).map fun (arcount, pos) =>
              (⟨tid, flags, qdcount, ancount, nscount, arcount⟩, pos)

def unpackHeader (chunk : Chunk) : Except String (Header × Int) :=
  unpack chunk (readHeader chunk) 1

def concat (t : List (List UInt8)) : List UInt8 := [46].intercalate t

structure NameState where
  t : List (List UInt8)
  jumpPointer : Option Int
  left : Int
  deriving DecidableEq, Repr

def nameBody (chunk : Chunk) (s : NameState) :
    Except String (NameState ⊕ List UInt8 × Int) :=
  unpack chunk (unpackInt chunk 1) s.left >>= fun (tag, left) =>
    if tag &&& 0xc0 = 0xc0 then
      (unpack chunk (unpackInt chunk 2) (left - 1)).map fun (offset, left) =>
        .inl { s with
          jumpPointer := some (s.jumpPointer.getD left)
          left := (offset &&& 0x3fff : Nat) + 1 }
    else if tag = 0 then .ok (.inr (concat s.t, s.jumpPointer.getD left))
    else
      (unpack chunk (unpackString chunk 1) (left - 1)).map fun (label, left) =>
        .inl { s with t := s.t ++ [label], left := left }

def nameRound (chunk : Chunk) (s : NameState) : NameState ⊕ Except String (List UInt8 × Int) :=
  match nameBody chunk s with
  | .error text => .inr (.error text)
  | .ok (.inl next) => .inl next
  | .ok (.inr result) => .inr (.ok result)

def unpackName (chunk : Chunk) (left : Int) (fuel : Nat) :
    Option (Except String (List UInt8 × Int)) :=
  Loop.run (nameRound chunk) fuel ⟨[], none, left⟩

structure Question where
  name : List UInt8
  atype : Nat
  qclass : Nat
  deriving DecidableEq, Repr

structure Answer where
  name : List UInt8
  atype : Nat
  qclass : Nat
  ttl : Nat
  rdata : List UInt8
  deriving DecidableEq, Repr

def readQuestion (chunk : Chunk) (name : List UInt8) (pos : Nat) :
    Except String (Question × Nat) :=
  unpackInt chunk 2 pos >>= fun (atype, pos) =>
    (unpackInt chunk 2 pos).map fun (qclass, pos) => (⟨name, atype, qclass⟩, pos)

def readAnswer (chunk : Chunk) (name : List UInt8) (pos : Nat) : Except String (Answer × Nat) :=
  unpackInt chunk 2 pos >>= fun (atype, pos) =>
    unpackInt chunk 2 pos >>= fun (qclass, pos) =>
      unpackInt chunk 4 pos >>= fun (ttl, pos) =>
        (unpackString chunk 2 pos).map fun (rdata, pos) => (⟨name, atype, qclass, ttl, rdata⟩, pos)

def unpackQuestion (chunk : Chunk) (left : Int) : Nat → Option (Except String (Question × Int)) :=
  Loop.bind (unpackName chunk left) fun (name, left) _ =>
    some (unpack chunk (readQuestion chunk name) left)

def unpackAnswer (chunk : Chunk) (left : Int) : Nat → Option (Except String (Answer × Int)) :=
  Loop.bind (unpackName chunk left) fun (name, left) _ =>
    some (unpack chunk (readAnswer chunk name) left)

def qtypeA : Nat := 1

def qtypeAAAA : Nat := 28

def hex (n : Nat) : String := String.ofList (Nat.toDigits 16 n)

def unpackRdata (qtype : Nat) (chunk : Chunk) : Except String String :=
  if qtype = qtypeA then
    unpackInt chunk 1 0 >>= fun (a, pos) =>
      unpackInt chunk 1 pos >>= fun (b, pos) =>
        unpackInt chunk 1 pos >>= fun (c, pos) =>
          (unpackInt chunk 1 pos).map fun (d, _) => s!"{a}.{b}.{c}.{d}"
  else if qtype = qtypeAAAA then
    unpackInt chunk 2 0 >>= fun (a, pos) =>
      unpackInt chunk 2 pos >>= fun (b, pos) =>
        unpackInt chunk 2 pos >>= fun (c, pos) =>
          unpackInt chunk 2 pos >>= fun (d, pos) =>
            unpackInt chunk 2 pos >>= fun (e, pos) =>
              unpackInt chunk 2 pos >>= fun (f, pos) =>
                unpackInt chunk 2 pos >>= fun (g, pos) =>
                  (unpackInt chunk 2 pos).map fun (h, _) =>
                    ":".intercalate [hex a, hex b, hex c, hex d, hex e, hex f, hex g, hex h]
  else .error s!"Error qtype {qtype}"

structure Request where
  name : List UInt8
  qtype : Nat
  co : Nat
  answers : Option (List String)
  deriving DecidableEq, Repr

abbrev Pool := Int64 → Option Request

inductive Resolved where
  | logged (text : String)
  | woken (co : Nat)
  deriving DecidableEq, Repr

-- The answers of the type that is asked for, among the next `n`
def unpackAnswers (content : Chunk) (qtype : Nat) :
    Nat → Int → List String → Nat → Option (Except String (List String))
  | 0, _, answers => fun _ => some (.ok answers)
  | n + 1, left, answers =>
    Loop.bind (unpackAnswer content left) fun (answer, left) =>
      if answer.atype = qtype then
        Loop.bind (fun _ => some (unpackRdata qtype answer.rdata)) fun ip =>
          unpackAnswers content qtype n left (answers ++ [ip])
      else unpackAnswers content qtype n left answers

def dnsHeaderLen : Nat := 12

-- The answers are left for the thread that is woken.
def answered (pool : Pool) (tid : Int64) (resp : Request) (answers : List String) :
    Pool × Resolved :=
  (if answers = [] then pool else Function.update pool tid (some { resp with answers := some answers }),
    .woken resp.co)

-- `resolve` once the question is the one that was asked
def resolveAnswers (pool : Pool) (content : Chunk) (header : Header) (left : Int) (resp : Request) :
    Nat → Option (Except String (Pool × Resolved)) :=
  Loop.bind (unpackAnswers content resp.qtype header.ancount left []) fun answers _ =>
    some (.ok (answered pool (Int64.ofNat header.tid) resp answers))

-- `resolve` once the request is found
def resolveRequest (pool : Pool) (content : Chunk) (header : Header) (left : Int) (resp : Request) :
    Nat → Option (Except String (Pool × Resolved)) :=
  Loop.bind (unpackQuestion content left) fun (question, left) =>
    if question.name ≠ resp.name then
      fun _ => some (.ok (pool, .logged "Recv an invalid name when dns query"))
    else resolveAnswers pool content header left resp

def resolve (pool : Pool) (content : Chunk) : Nat → Option (Except String (Pool × Resolved)) :=
  if content.length < dnsHeaderLen then
    fun _ => some (.ok (pool, .logged "Recv an invalid package when dns query"))
  else
    Loop.bind (fun _ => some (unpackHeader content)) fun (header, left) =>
      if header.qdcount ≠ 1 then fun _ => some (.error "malformed packet")
      else
        match pool (Int64.ofNat header.tid) with
        | none => fun _ => some (.ok (pool, .logged "Recv an invalid tid when dns query"))
        | some resp => resolveRequest pool content header left resp

end Pskynet.Dns
