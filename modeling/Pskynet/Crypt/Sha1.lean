import Pskynet.Crypt.Des
import Pskynet.Shared.Words

set_option autoImplicit false

namespace Pskynet.Crypt

open Memory

-- The five words of `state`, and the working variables that start as a copy of them.
structure Chain where
  a : UInt32
  b : UInt32
  c : UInt32
  d : UInt32
  e : UInt32
  deriving DecidableEq, Repr

inductive Register where
  | a
  | b
  | c
  | d
  | e

def Chain.get (s : Chain) : Register → UInt32
  | .a => s.a
  | .b => s.b
  | .c => s.c
  | .d => s.d
  | .e => s.e

def Chain.set (s : Chain) (value : UInt32) : Register → Chain
  | .a => { s with a := value }
  | .b => { s with b := value }
  | .c => { s with c := value }
  | .d => { s with d := value }
  | .e => { s with e := value }

def rol (value bits : UInt32) : UInt32 := value <<< bits ||| value >>> (32 - bits)

-- A word of `CHAR64LONG16` as the machine reads it, lowest byte first
def loadUint32 (b : List UInt8) (i : Nat) : UInt32 :=
  (b.getD i 0).toUInt32 ||| (b.getD (i + 1) 0).toUInt32 <<< 8 |||
    (b.getD (i + 2) 0).toUInt32 <<< 16 ||| (b.getD (i + 3) 0).toUInt32 <<< 24

def swapBytes (l : UInt32) : UInt32 := (rol l 24 &&& 0xFF00FF00) ||| (rol l 8 &&& 0x00FF00FF)

def blk0 (l : List UInt32) (i : Nat) : UInt32 := swapBytes (l.getD i 0)

def blk (l : List UInt32) (i : Nat) : UInt32 :=
  rol (l.getD ((i + 13) &&& 15) 0 ^^^ l.getD ((i + 8) &&& 15) 0 ^^^ l.getD ((i + 2) &&& 15) 0 ^^^
    l.getD (i &&& 15) 0) 1

structure Roles where
  v : Register
  w : Register
  x : Register
  y : Register
  z : Register

def roles (i : Nat) : Roles :=
  match i % 5 with
  | 0 => ⟨.a, .b, .c, .d, .e⟩
  | 1 => ⟨.e, .a, .b, .c, .d⟩
  | 2 => ⟨.d, .e, .a, .b, .c⟩
  | 3 => ⟨.c, .d, .e, .a, .b⟩
  | _ => ⟨.b, .c, .d, .e, .a⟩

def mixed (i : Nat) (w x y : UInt32) : UInt32 × UInt32 :=
  if i < 20 then ((w &&& (x ^^^ y)) ^^^ y, 0x5A827999)
  else if i < 40 then (w ^^^ x ^^^ y, 0x6ED9EBA1)
  else if i < 60 then (((w ||| x) &&& y) ||| (w &&& x), 0x8F1BBCDC)
  else (w ^^^ x ^^^ y, 0xCA62C1D6)

def round (i : Nat) (r : Roles) (word : UInt32) (s : Chain) : Chain :=
  let (mix, constant) := mixed i (s.get r.w) (s.get r.x) (s.get r.y)
  let s := s.set (s.get r.z + (mix + word + constant + rol (s.get r.v) 5)) r.z
  s.set (rol (s.get r.w) 30) r.w

structure Working where
  vars : Chain
  l : List UInt32

-- `R0(.., i)` below 16 and one of the others from there on; each writes its word back.
def turn (s : Working) (i : Nat) : Working :=
  let word := if i < 16 then blk0 s.l i else blk s.l i
  { vars := round i (roles i) word s.vars, l := s.l.set (i &&& 15) word }

def sha1Transform (state : Chain) (buffer : List UInt8) : Chain :=
  let l := (List.range 16).map fun i => loadUint32 buffer (4 * i)
  let final := ((List.range 80).foldl turn { vars := state, l }).vars
  { a := state.a + final.a, b := state.b + final.b, c := state.c + final.c, d := state.d + final.d,
    e := state.e + final.e }

structure Sha1Ctx where
  state : Chain
  count0 : UInt32
  count1 : UInt32
  buffer : List UInt8

def initial : Chain := ⟨0x67452301, 0xEFCDAB89, 0x98BADCFE, 0x10325476, 0xC3D2E1F0⟩

def sha1Init (context : Sha1Ctx) : Sha1Ctx :=
  { context with state := initial, count0 := 0, count1 := 0 }

def transformLoop (data : List UInt8) (i : Nat) (state : Chain) : Nat × Chain :=
  if i + 63 < data.length then
    transformLoop data (i + 64) (sha1Transform state (data.drop i))
  else (i, state)
termination_by data.length - i

def sha1Update (context : Sha1Ctx) (data : List UInt8) : Sha1Ctx :=
  let len := UInt64.ofNat data.length
  let j := ((context.count0 >>> 3) &&& 63).toNat
  let count0 := context.count0 + (len <<< 3).toUInt32
  -- The sum has 32 bits, and what it is compared with has 64.
  let count1 := if count0.toUInt64 < len <<< 3 then context.count1 + 1 else context.count1
  let count1 := count1 + (len >>> 29).toUInt32
  if j + data.length > 63 then
    let buffer := memcpy context.buffer j (data.take (64 - j))
    let (i, state) := transformLoop data (64 - j) (sha1Transform context.state buffer)
    { state, count0, count1, buffer := memcpy buffer 0 (data.drop i) }
  else { context with count0, count1, buffer := memcpy context.buffer j data }

theorem count0_sha1Update (context : Sha1Ctx) (data : List UInt8) :
    (sha1Update context data).count0 =
      context.count0 + (UInt64.ofNat data.length <<< 3).toUInt32 := by
  unfold sha1Update
  dsimp only
  split <;> rfl

theorem and_504 (n : Nat) : n &&& 504 = 8 * (n / 8 % 64) := by
  apply Nat.eq_of_testBit_eq
  intro i
  rw [show 504 = 2 ^ 3 * (2 ^ 6 - 1) from rfl, Nat.testBit_and, Nat.testBit_two_pow_mul,
    show 8 = 2 ^ 3 from rfl, Nat.testBit_two_pow_mul, show 64 = 2 ^ 6 from rfl,
    Nat.testBit_mod_two_pow, Nat.testBit_div_two_pow, Nat.testBit_two_pow_sub_one]
  by_cases low : 3 ≤ i
  · rw [Nat.sub_add_cancel low, Bool.and_comm]
    simp [low]
  · simp [low]

def lacking (count0 : UInt32) : Nat := (120 - count0.toNat / 8 % 64) % 64

theorem at_length_iff (count0 : UInt32) : count0 &&& 504 = 448 ↔ lacking count0 = 0 := by
  rw [← UInt32.toNat_inj, UInt32.toNat_and, show (504 : UInt32).toNat = 504 from rfl, and_504,
    show (448 : UInt32).toNat = 448 from rfl, lacking]
  omega

theorem lacking_add (count0 : UInt32) (short : lacking count0 ≠ 0) :
    lacking (count0 + 8) + 1 = lacking count0 := by
  have sum : (count0 + 8).toNat = (count0.toNat + 8) % 2 ^ 32 := UInt32.toNat_add _ _
  unfold lacking at short ⊢
  omega

def padLoop (context : Sha1Ctx) : Sha1Ctx :=
  if context.count0 &&& 504 ≠ 448 then padLoop (sha1Update context [0]) else context
termination_by lacking context.count0
decreasing_by
  rename_i short
  rw [ne_eq, at_length_iff] at short
  have fewer := lacking_add context.count0 short
  rw [count0_sha1Update, show (UInt64.ofNat [(0 : UInt8)].length <<< 3).toUInt32 = 8 from rfl]
  omega

def digestByte (word : UInt32) (i : Nat) : UInt8 :=
  ((word >>> ((3 - (UInt32.ofNat i &&& 3)) * 8)) &&& 255).toUInt8

def Chain.words (s : Chain) : List UInt32 := [s.a, s.b, s.c, s.d, s.e]

def sha1Final (context : Sha1Ctx) : List UInt8 :=
  let finalcount := (List.range 8).map fun i =>
    digestByte (if i ≥ 4 then context.count0 else context.count1) i
  let context := sha1Update context [0x80]
  let context := padLoop context
  let context := sha1Update context finalcount
  (List.range 20).map fun i => digestByte (context.state.words.getD (i >>> 2) 0) i

def lsha1 (context : Sha1Ctx) (buffer : List UInt8) : List UInt8 :=
  sha1Final (sha1Update (sha1Init context) buffer)

end Pskynet.Crypt

namespace Pskynet.Crypt.Secure

def choose (x y z : UInt32) : UInt32 := (x &&& y) ^^^ (~~~x &&& z)

def parity (x y z : UInt32) : UInt32 := x ^^^ y ^^^ z

def majority (x y z : UInt32) : UInt32 := (x &&& y) ^^^ (x &&& z) ^^^ (y &&& z)

def mix (t : Nat) : UInt32 → UInt32 → UInt32 → UInt32 :=
  if t < 20 then choose else if t < 40 then parity else if t < 60 then majority else parity

def constant (t : Nat) : UInt32 :=
  if t < 20 then 0x5A827999
  else if t < 40 then 0x6ED9EBA1
  else if t < 60 then 0x8F1BBCDC
  else 0xCA62C1D6

def schedule (block : List UInt8) (t : Nat) : UInt32 :=
  if t < 16 then getUint32 block (4 * t)
  else
    rol (schedule block (t - 3) ^^^ schedule block (t - 8) ^^^ schedule block (t - 14) ^^^
      schedule block (t - 16)) 1

def step (block : List UInt8) (s : Chain) (t : Nat) : Chain :=
  { a := rol s.a 5 + mix t s.b s.c s.d + s.e + constant t + schedule block t
    b := s.a
    c := rol s.b 30
    d := s.c
    e := s.d }

def compress (state : Chain) (block : List UInt8) : Chain :=
  let final := (List.range 80).foldl (step block) state
  { a := state.a + final.a, b := state.b + final.b, c := state.c + final.c, d := state.d + final.d,
    e := state.e + final.e }

end Pskynet.Crypt.Secure

namespace Pskynet.Crypt

open Secure

theorem choose_eq (w x y : UInt32) : (w &&& (x ^^^ y)) ^^^ y = choose w x y := by
  rw [choose, ← UInt32.toBitVec_inj]
  ext i hi
  simp only [UInt32.toBitVec_xor, UInt32.toBitVec_and, UInt32.toBitVec_not, BitVec.getElem_xor,
    BitVec.getElem_and, BitVec.getElem_not]
  cases w.toBitVec[i] <;> cases x.toBitVec[i] <;> cases y.toBitVec[i] <;> rfl

theorem majority_eq (w x y : UInt32) :
    ((w ||| x) &&& y) ||| (w &&& x) = majority w x y := by
  rw [majority, ← UInt32.toBitVec_inj]
  ext i hi
  simp only [UInt32.toBitVec_xor, UInt32.toBitVec_and, UInt32.toBitVec_or, BitVec.getElem_xor,
    BitVec.getElem_and, BitVec.getElem_or]
  cases w.toBitVec[i] <;> cases x.toBitVec[i] <;> cases y.toBitVec[i] <;> rfl

theorem mixed_eq (i : Nat) (w x y : UInt32) : mixed i w x y = (mix i w x y, constant i) := by
  unfold mixed mix constant
  split
  · rw [choose_eq]
  split
  · rfl
  split
  · rw [majority_eq]
  · rfl

theorem swapBytes_loadUint32 (b : List UInt8) (i : Nat) :
    swapBytes (loadUint32 b i) = getUint32 b i := by
  unfold swapBytes rol loadUint32 getUint32
  generalize b.getD i 0 = b0
  generalize b.getD (i + 1) 0 = b1
  generalize b.getD (i + 2) 0 = b2
  generalize b.getD (i + 3) 0 = b3
  rw [← UInt32.toBitVec_inj]
  ext i hi
  simp
  interval_cases i <;> simp

-- The working variables in the order that the macro for `i` names them in
def view (i : Nat) (s : Chain) : Chain :=
  ⟨s.get (roles i).v, s.get (roles i).w, s.get (roles i).x, s.get (roles i).y, s.get (roles i).z⟩

theorem view_round (block : List UInt8) (i : Nat) (s : Chain) :
    view (i + 1) (round i (roles i) (schedule block i) s) = step block (view i s) i := by
  have turns : i % 5 = 0 ∨ i % 5 = 1 ∨ i % 5 = 2 ∨ i % 5 = 3 ∨ i % 5 = 4 := by omega
  have sum (z m w k v : UInt32) : z + (m + w + k + v) = v + m + z + k + w := by ac_rfl
  obtain now | now | now | now | now := turns
  · have next : (i + 1) % 5 = 1 := by omega
    simp [view, roles, now, next, round, mixed_eq, Chain.get, Chain.set, step, sum]
  · have next : (i + 1) % 5 = 2 := by omega
    simp [view, roles, now, next, round, mixed_eq, Chain.get, Chain.set, step, sum]
  · have next : (i + 1) % 5 = 3 := by omega
    simp [view, roles, now, next, round, mixed_eq, Chain.get, Chain.set, step, sum]
  · have next : (i + 1) % 5 = 4 := by omega
    simp [view, roles, now, next, round, mixed_eq, Chain.get, Chain.set, step, sum]
  · have next : (i + 1) % 5 = 0 := by omega
    simp [view, roles, now, next, round, mixed_eq, Chain.get, Chain.set, step, sum]

-- Before turn `i` the last 16 words made are in their places, and those of the block that no turn
-- has come to are as they were read.
structure Scheduled (block : List UInt8) (i : Nat) (l : List UInt32) : Prop where
  length : l.length = 16
  made : ∀ t, t < i → i ≤ t + 16 → l.getD (t % 16) 0 = schedule block t
  loaded : ∀ t, i ≤ t → t < 16 → l.getD t 0 = loadUint32 block (4 * t)

variable {block : List UInt8} {l : List UInt32} {i : Nat}

theorem Scheduled.word (scheduled : Scheduled block i l) :
    (if i < 16 then blk0 l i else blk l i) = schedule block i := by
  have low (k : Nat) : k &&& 15 = k % 16 := Nat.and_two_pow_sub_one_eq_mod k 4
  have earlier (back : Nat) (recent : back ≤ 16) (some : 0 < back) (enough : back ≤ i) :
      l.getD ((i + (16 - back)) % 16) 0 = schedule block (i - back) := by
    have place : (i + (16 - back)) % 16 = (i - back) % 16 := by omega
    rw [place, scheduled.made (i - back) (by omega) (by omega)]
  unfold schedule
  split
  · rename_i first
    rw [blk0, scheduled.loaded i le_rfl first, swapBytes_loadUint32]
  · rw [blk, low, low, low, low, earlier 3 (by omega) (by omega) (by omega),
      earlier 8 (by omega) (by omega) (by omega), earlier 14 (by omega) (by omega) (by omega)]
    have last := earlier 16 le_rfl (by omega) (by omega)
    rw [Nat.sub_self, Nat.add_zero] at last
    rw [last]

theorem Scheduled.next (scheduled : Scheduled block i l) :
    Scheduled block (i + 1) (l.set (i &&& 15) (schedule block i)) := by
  have low : i &&& 15 = i % 16 := Nat.and_two_pow_sub_one_eq_mod i 4
  have inside : i % 16 < l.length := by
    rw [scheduled.length]
    omega
  rw [low]
  constructor
  · rw [List.length_set, scheduled.length]
  · intro t before recent
    by_cases here : t = i
    · rw [here, List.getD_eq_getElem?_getD, List.getElem?_set_self inside, Option.getD_some]
    · rw [List.getD_eq_getElem?_getD, List.getElem?_set_ne (by omega), ← List.getD_eq_getElem?_getD,
        scheduled.made t (by omega) (by omega)]
  · intro t later first
    rw [List.getD_eq_getElem?_getD, List.getElem?_set_ne (by omega), ← List.getD_eq_getElem?_getD,
      scheduled.loaded t (by omega) first]

theorem scheduled_start (block : List UInt8) :
    Scheduled block 0 ((List.range 16).map fun i => loadUint32 block (4 * i)) where
  length := by rw [List.length_map, List.length_range]
  made := by omega
  loaded := by
    intro t _ first
    rw [List.getD_eq_getElem?_getD, List.getElem?_map, List.getElem?_range first, Option.map_some,
      Option.getD_some]

theorem turns_eq (block : List UInt8) (state : Chain) (n : Nat) :
    let s := (List.range n).foldl turn
      { vars := state, l := (List.range 16).map fun i => loadUint32 block (4 * i) }
    Scheduled block n s.l ∧ view n s.vars = (List.range n).foldl (step block) state := by
  induction n with
  | zero => exact ⟨scheduled_start block, rfl⟩
  | succ n ih =>
    obtain ⟨scheduled, same⟩ := ih
    dsimp only
    rw [List.range_succ (n := n), List.foldl_append, List.foldl_append, ← same]
    simp only [List.foldl_cons, List.foldl_nil, turn, scheduled.word]
    exact ⟨scheduled.next, view_round block n _⟩

theorem sha1Transform_eq (state : Chain) (block : List UInt8) :
    sha1Transform state block = compress state block := by
  have same := (turns_eq block state 80).2
  have whole (s : Chain) : view 80 s = s := rfl
  rw [whole] at same
  rw [sha1Transform, compress, same]

-- The first of the test vectors that the source lists
example : (sha1Transform initial
    ([0x61, 0x62, 0x63, 0x80] ++ List.replicate 59 0 ++ [24])).words =
      [0xA9993E36, 0x4706816A, 0xBA3E2571, 0x7850C26C, 0x9CD0D89D] := by decide +kernel

theorem compress_take (state : Chain) (data : List UInt8) :
    compress state (data.take 64) = compress state data := by
  have words (t : Nat) (first : t < 16) :
      getUint32 (data.take 64) (4 * t) = getUint32 data (4 * t) := by
    have byte (k : Nat) (inside : k < 64) : (data.take 64).getD k 0 = data.getD k 0 := by
      rw [List.getD_eq_getElem?_getD, List.getElem?_take_of_lt inside, List.getD_eq_getElem?_getD]
    rw [getUint32, byte _ (by omega), byte _ (by omega), byte _ (by omega), byte _ (by omega),
      getUint32]
  have all (t : Nat) : schedule (data.take 64) t = schedule data t := by
    induction t using Nat.strong_induction_on with
    | _ t ih =>
      unfold schedule
      split
      · exact words t ‹_›
      · rw [ih (t - 3) (by omega), ih (t - 8) (by omega), ih (t - 14) (by omega),
          ih (t - 16) (by omega)]
  have steps : step (data.take 64) = step data := by
    funext s t
    rw [step, step, all]
  rw [compress, compress, steps]

end Pskynet.Crypt
