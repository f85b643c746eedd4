import Mathlib.Tactic
import Pskynet.Shared.CInt
import Pskynet.Shared.Memory

set_option autoImplicit false

namespace Pskynet.Sproto

open Memory

-- The loop of `pack_seg`: `at` is where `buffer` points to, and `sz` what is left behind it.
structure SegLoop where
  header : UInt8
  notzero : Nat
  buffer : List UInt8
  pos : Nat
  sz : Int

def segByte (s : SegLoop) (item : UInt8 × Nat) : SegLoop :=
  let (byte, i) := item
  if byte ≠ 0 then
    let s := { s with notzero := s.notzero + 1, header := s.header ||| 1 <<< UInt8.ofNat i }
    if 0 < s.sz then { s with buffer := s.buffer.set s.pos byte, pos := s.pos + 1, sz := s.sz - 1 }
    else s
  else s

-- Returns the block behind `buffer` and the size of the segment.
def packSeg (src buffer : List UInt8) (pos : Nat) (sz : Int) (n : Nat) : List UInt8 × Nat :=
  let obuffer := if sz - 1 < 0 then none else some pos
  let s := src.zipIdx.foldl segByte
    { header := 0, notzero := 0, buffer := buffer, pos := pos + 1, sz := sz - 1 }
  let notzero := if (s.notzero = 7 ∨ s.notzero = 6) ∧ 0 < n then 8 else s.notzero
  if notzero = 8 then (s.buffer, if 0 < n then 8 else 10)
  else
    match obuffer with
    | none => (s.buffer, notzero + 1)
    | some pos => (s.buffer.set pos s.header, notzero + 1)

def writeFf (src des : List UInt8) (pos n : Nat) : List UInt8 :=
  let align8n := (n + 7) / 8 * 8
  let des := des.set pos 0xff
  let des := des.set (pos + 1) (UInt8.ofNat (align8n / 8 - 1))
  let des := memcpy des (pos + 2) (src.take n)
  memcpy des (n + pos + 2) (List.replicate (align8n - n) 0)

-- The two pointers are offsets. A word that is padded has a zero, so that `ff_srcstart` never
-- points to `tmp`.
structure PackLoop where
  buffer : List UInt8
  pos : Nat
  bufsz : Int
  ffSrcstart : Nat
  ffDesstart : Nat
  ffN : Nat
  size : Nat

-- Ends a run after `n` bytes of it, if there is room for what has been counted.
def PackLoop.writeRun (s : PackLoop) (srcv : List UInt8) (n : Nat) : PackLoop :=
  if 0 ≤ s.bufsz then
    { s with buffer := writeFf (srcv.drop s.ffSrcstart) s.buffer s.ffDesstart n }
  else s

-- What becomes of the run after a segment of size `n` for the word at `i`.
def PackLoop.count (s : PackLoop) (srcv : List UInt8) (i n : Nat) : PackLoop :=
  if n = 10 then { s with ffSrcstart := i, ffDesstart := s.pos, ffN := 1 }
  else if n = 8 ∧ 0 < s.ffN then
    let s := { s with ffN := s.ffN + 1 }
    if s.ffN = 256 then { s.writeRun srcv (256 * 8) with ffN := 0 } else s
  else if 0 < s.ffN then { s.writeRun srcv (s.ffN * 8) with ffN := 0 }
  else s

def packWord (srcv : List UInt8) (srcsz : Nat) (s : PackLoop) (i : Nat) : PackLoop :=
  let src := ((srcv.take srcsz).drop i).take 8
  let src := src ++ List.replicate (8 - src.length) 0
  let (buffer, n) := packSeg src s.buffer s.pos s.bufsz s.ffN
  let s := PackLoop.count { s with buffer := buffer, bufsz := s.bufsz - n } srcv i n
  { s with pos := s.pos + n, size := s.size + n }

def packWords (srcv : List UInt8) (srcsz : Nat) (buffer : List UInt8) : PackLoop :=
  ((List.range ((srcsz + 7) / 8)).map (8 * ·)).foldl (packWord srcv srcsz)
    { buffer := buffer, pos := 0, bufsz := buffer.length, ffSrcstart := 0, ffDesstart := 0, ffN := 0,
      size := 0 }

-- `srcv` is the memory behind the pointer. Returns the block behind `bufferv` and the size.
def sprotoPackFrom (srcv : List UInt8) (srcsz : Nat) (buffer : List UInt8) : List UInt8 × Nat :=
  let s := packWords srcv srcsz buffer
  let s :=
    if s.ffN = 1 then s.writeRun srcv 8
    else if 1 < s.ffN then s.writeRun srcv (srcsz - s.ffSrcstart)
    else s
  (s.buffer, s.size)

-- The memory ends with the source.
def sprotoPack (srcv buffer : List UInt8) : List UInt8 × Nat :=
  sprotoPackFrom srcv srcv.length buffer

def maxsz (sz : Nat) : Nat := (sz + 2047) / 2048 * 2 + sz

def encodeBuffersize : Nat := 2050

def encodeMaxsize : Nat := 0x1000000

-- The block in the upvalues of the packers, whose size was only ever doubled.
structure Output where
  doublings : Nat
  small : encodeBuffersize * 2 ^ doublings ≤ encodeMaxsize

def Output.size (output : Output) : Nat := encodeBuffersize * 2 ^ output.doublings

-- An error of Lua; a signed `int` that overflows; or bytes that are read behind a block.
inductive PackFault where
  | error (text : String)
  | overflow
  | outside
  deriving DecidableEq

-- The `do` loop of `expand_buffer`.
def doubled (nsz : Int) : Nat → Nat → Except PackFault Nat
  | 0, _ => .error .overflow
  | turns + 1, doublings =>
      if 2 ^ 31 ≤ encodeBuffersize * 2 ^ (doublings + 1) then .error .overflow
      else if (encodeBuffersize * 2 ^ (doublings + 1) : Nat) < nsz then
        doubled nsz turns (doublings + 1)
      else .ok (doublings + 1)

def expandBuffer (output : Output) (nsz : Int) : Except PackFault Output :=
  (doubled nsz 31 output.doublings).bind fun doublings =>
    if small : encodeBuffersize * 2 ^ doublings ≤ encodeMaxsize then .ok ⟨doublings, small⟩
    else .error (.error s!"object is too large (>{encodeMaxsize})")

def Output.reserve (output : Output) (maxsz : Nat) : Except PackFault Output :=
  if output.size < maxsz then expandBuffer output (CInt.toInt maxsz) else .ok output

-- The end of `lpack`: the string is the first `bytes` bytes of the block.
def pushPacked (output : Output) (maxsz : Nat) (packed : List UInt8 × Nat) :
    Except PackFault (List UInt8 × Nat × Output) :=
  let (block, bytes) := packed
  if 2 ^ 31 ≤ bytes then .error .overflow
  else if maxsz < bytes then .error (.error s!"packing error, return size = {bytes}")
  else if output.size < bytes then .error .outside
  else .ok (block, bytes, output)

-- `buffer` is the memory behind the first argument. `sproto_pack` takes both sizes as an `int`, and
-- touches the block up to the size it is given.
def lpack (output : Output) (buffer : List UInt8) (sz : Nat) :
    Except PackFault (List UInt8 × Nat × Output) :=
  (output.reserve (maxsz sz)).bind fun output =>
    pushPacked output (maxsz sz)
      (sprotoPackFrom buffer (CInt.toInt sz).toNat (malloc (CInt.toInt (maxsz sz)).toNat))

-- `src` is what is left of the source: `srcsz` bytes, or `missing` where `srcsz` is -1.
structure UnpackLoop where
  src : List UInt8
  missing : Bool
  buffer : List UInt8
  pos : Nat
  bufsz : Int
  size : Nat

def UnpackLoop.put (s : UnpackLoop) (byte : UInt8) : UnpackLoop :=
  if 0 < s.bufsz then
    { s with buffer := s.buffer.set s.pos byte, bufsz := s.bufsz - 1, pos := s.pos + 1,
             size := s.size + 1 }
  else { s with size := s.size + 1 }

-- `size` is what has been counted, also where -1 is returned.
inductive Unpacked where
  | refused (size : Nat)
  | size (size : Nat) (buffer : List UInt8)
  deriving DecidableEq, Repr

-- The error is what ends the call here: -1, or nothing where a byte behind the source is read.
-- `srcsz < 0` is asked before a byte is taken, so that the first missing byte is read if there is
-- room for it in the block, and skipped otherwise.
def unpackBit (s : UnpackLoop) (nz : Bool) : Except (Option Unpacked) UnpackLoop :=
  if nz then
    match s.src with
    | byte :: src => .ok ({ s with src := src }.put byte)
    | [] =>
        if s.missing then .error (some (.refused s.size))
        else if 0 < s.bufsz then .error none
        else .ok { s with missing := true, size := s.size + 1 }
  else .ok (s.put 0)

-- Nothing is returned where a byte behind the source is read.
def unpackLoop : Nat → UnpackLoop → Option Unpacked
  | 0, _ => none
  | turns + 1, s =>
      match s.src with
      | [] => some (.size s.size s.buffer)
      | header :: src =>
          if header = 0xff then
            match src with
            | [] => none
            | count :: src =>
                let n := (count.toNat + 1) * 8
                if src.length < n then some (.refused s.size)
                else
                  unpackLoop turns
                    { src := src.drop n
                      missing := false
                      buffer := if (n : Int) ≤ s.bufsz then memcpy s.buffer s.pos (src.take n) else s.buffer
                      pos := s.pos + n
                      bufsz := s.bufsz - n
                      size := s.size + n }
          else
            match (List.range 8).foldlM
                (fun s i => unpackBit s ((header >>> UInt8.ofNat i) &&& 1 ≠ 0)) { s with src := src } with
            | .error result => result
            | .ok s => unpackLoop turns s

def sprotoUnpack (srcv buffer : List UInt8) : Option Unpacked :=
  unpackLoop (srcv.length + 1)
    { src := srcv, missing := false, buffer := buffer, pos := 0, bufsz := buffer.length, size := 0 }

end Pskynet.Sproto
