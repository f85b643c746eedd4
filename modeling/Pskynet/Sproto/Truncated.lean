import Pskynet.Sproto.Packing

set_option autoImplicit false

namespace Pskynet.Sproto

def headerBits (header : UInt8) : List Bool :=
  (List.range 8).map fun i => decide ((header >>> UInt8.ofNat i) &&& 1 ≠ 0)

def spread : List Bool → List UInt8 → List UInt8
  | [], _ => []
  | true :: bits, byte :: body => byte :: spread bits body
  | true :: bits, [] => 0 :: spread bits []
  | false :: bits, body => 0 :: spread bits body

inductive Groups : List UInt8 → List UInt8 → Prop where
  | nil : Groups [] []
  | run (count : UInt8) {body rest out : List UInt8} (whole : body.length = (count.toNat + 1) * 8)
      (groups : Groups rest out) : Groups (0xff :: count :: (body ++ rest)) (body ++ out)
  | bitmap {header : UInt8} (other : header ≠ 0xff) {body rest out : List UInt8}
      (whole : body.length = (headerBits header).count true) (groups : Groups rest out) :
      Groups (header :: (body ++ rest)) (spread (headerBits header) body ++ out)

def Complete (src : List UInt8) : Prop := ∃ out, Groups src out

-- A 0xff group behind `size` unpacked bytes has its count byte, and too few bytes behind it.
def CutRun (src : List UInt8) (size : Nat) : Prop :=
  ∃ (front : List UInt8) (count : UInt8) (body out : List UInt8),
    src = front ++ 0xff :: count :: body ∧ Groups front out ∧ out.length = size ∧
      body.length < (count.toNat + 1) * 8

-- A bitmap word with `header` behind `size` unpacked bytes has fewer bytes, `left`, than set bits.
def CutWord (src : List UInt8) (header : UInt8) (size left : Nat) : Prop :=
  ∃ front body out : List UInt8,
    src = front ++ header :: body ∧ Groups front out ∧ out.length = size ∧ body.length = left ∧
      header ≠ 0xff ∧ left < (headerBits header).count true

def CutCount (src : List UInt8) : Prop := ∃ front, src = front ++ [0xff] ∧ Complete front

-- The place of the first set bit for which no byte is left.
def missingAt : List Bool → Nat → Nat
  | [], _ => 0
  | false :: bits, left => missingAt bits left + 1
  | true :: _, 0 => 0
  | true :: bits, left + 1 => missingAt bits left + 1

def Unpacked.counted : Unpacked → Nat
  | .refused counted => counted
  | .size counted _ => counted

def Unpacked.isRefused : Unpacked → Bool
  | .refused .. => true
  | .size .. => false

-- `sproto_unpack` reads inside of the source only, its `size` stays an `int`, it refuses the source
-- exactly when it is not complete, and returns the unpacked size.
def UnpacksSafely (src buffer : List UInt8) : Prop :=
  ∃ result, sprotoUnpack src buffer = some result ∧ result.counted < 2 ^ 31 ∧
    (result.isRefused = true ↔ ¬Complete src) ∧
    ∀ out, Groups src out → ∃ buffer', result = .size out.length buffer'

theorem length_spread (bits : List Bool) (body : List UInt8) :
    (spread bits body).length = bits.length := by
  induction bits generalizing body with
  | nil => rfl
  | cons bit bits ih =>
    cases bit with
    | false => simp [spread, ih]
    | true => cases body <;> simp [spread, ih]

theorem Groups.append {front rest out more : List UInt8} (first : Groups front out)
    (second : Groups rest more) : Groups (front ++ rest) (out ++ more) := by
  induction first with
  | nil => exact second
  | run count whole groups ih =>
    have joined := Groups.run count whole ih
    simpa only [List.cons_append, List.append_assoc] using joined
  | bitmap other whole groups ih =>
    have joined := Groups.bitmap other whole ih
    simpa only [List.cons_append, List.append_assoc] using joined

theorem Groups.length_mod {src out : List UInt8} (groups : Groups src out) : out.length % 8 = 0 := by
  induction groups with
  | nil => rfl
  | run count whole groups ih =>
    rw [List.length_append]
    omega
  | bitmap other whole groups ih =>
    rw [List.length_append, length_spread, headerBits, List.length_map, List.length_range]
    omega

-- The loop before any byte was missing, in a block of `room` bytes.
structure Going (room : Nat) (s : UnpackLoop) : Prop where
  whole : s.missing = false
  bufsz : s.bufsz = room - s.size ∨ s.bufsz ≤ 0 ∧ room ≤ s.size

theorem Going.room_iff {room : Nat} {s : UnpackLoop} (going : Going room s) :
    0 < s.bufsz ↔ s.size < room := by
  have := going.bufsz
  omega

theorem put_src (s : UnpackLoop) (byte : UInt8) : (s.put byte).src = s.src := by
  unfold UnpackLoop.put
  split_ifs <;> rfl

theorem put_size (s : UnpackLoop) (byte : UInt8) : (s.put byte).size = s.size + 1 := by
  unfold UnpackLoop.put
  split_ifs <;> rfl

theorem Going.put {room : Nat} {s : UnpackLoop} (going : Going room s) (byte : UInt8) :
    Going room (s.put byte) := by
  obtain ⟨whole, bufsz⟩ := going
  unfold UnpackLoop.put
  split_ifs with enough
  · exact ⟨whole, by simp only; omega⟩
  · exact ⟨whole, by simp only; omega⟩

theorem unpackBits_whole (room : Nat) (bits : List Bool) (s : UnpackLoop) (going : Going room s)
    (enough : bits.count true ≤ s.src.length) :
    ∃ s', bits.foldlM unpackBit s = .ok s' ∧ Going room s' ∧
      s'.src = s.src.drop (bits.count true) ∧ s'.size = s.size + bits.length := by
  induction bits generalizing s with
  | nil => exact ⟨s, rfl, going, rfl, rfl⟩
  | cons bit bits ih =>
    rw [List.foldlM_cons]
    cases bit with
    | false =>
      rw [show (false :: bits).count true = bits.count true by simp] at enough ⊢
      obtain ⟨s', folded, going', src, size⟩ := ih (s.put 0) (going.put 0) (by rwa [put_src])
      refine ⟨s', folded, going', by rw [src, put_src], ?_⟩
      rw [size, put_size, List.length_cons]
      omega
    | true =>
      rw [show (true :: bits).count true = bits.count true + 1 by simp] at enough ⊢
      cases src : s.src with
      | nil =>
        rw [src] at enough
        exact absurd enough (Nat.not_succ_le_zero _)
      | cons byte rest =>
        rw [src] at enough
        have step : unpackBit s true = .ok ({ s with src := rest }.put byte) := by
          simp [unpackBit, src]
        have start : Going room { s with src := rest } := ⟨going.whole, going.bufsz⟩
        obtain ⟨s', folded, going', left, size⟩ := ih _ (start.put byte)
          (by rw [put_src]; exact Nat.le_of_succ_le_succ enough)
        rw [step]
        refine ⟨s', folded, going', by rw [left, put_src]; rfl, ?_⟩
        rw [size, put_size, List.length_cons]
        simp only
        omega

-- Where a byte was missing, the next set bit ends the call.
theorem unpackBits_missing (bits : List Bool) (s : UnpackLoop) (missing : s.missing = true)
    (empty : s.src = []) :
    (bits.count true = 0 → ∃ s', bits.foldlM unpackBit s = .ok s' ∧ s'.src = []) ∧
    (0 < bits.count true → ∃ size, bits.foldlM unpackBit s = .error (some (.refused size)) ∧
      s.size ≤ size ∧ size < s.size + bits.length) := by
  induction bits generalizing s with
  | nil => exact ⟨fun _ => ⟨s, rfl, empty⟩, fun some_ => absurd some_ (Nat.lt_irrefl _)⟩
  | cons bit bits ih =>
    rw [List.foldlM_cons, List.length_cons]
    cases bit with
    | false =>
      have same : (s.put 0).missing = true := by
        unfold UnpackLoop.put
        split_ifs <;> exact missing
      obtain ⟨none_, some_⟩ := ih (s.put 0) same (by rwa [put_src])
      rw [show (false :: bits).count true = bits.count true by simp]
      refine ⟨none_, fun later => ?_⟩
      obtain ⟨size, folded, least, less⟩ := some_ later
      rw [put_size] at least less
      exact ⟨size, folded, by omega, by omega⟩
    | true =>
      have step : unpackBit s true = .error (some (.refused s.size)) := by
        simp [unpackBit, empty, missing]
      rw [step]
      refine ⟨fun none_ => ?_, fun _ => ⟨s.size, rfl, le_rfl, by omega⟩⟩
      simp at none_

theorem unpackBits_short (room : Nat) (bits : List Bool) (s : UnpackLoop) (going : Going room s)
    (few : s.src.length < bits.count true) :
    (s.size + missingAt bits s.src.length < room → bits.foldlM unpackBit s = .error none) ∧
    (room ≤ s.size + missingAt bits s.src.length →
      (bits.count true = s.src.length + 1 → ∃ s', bits.foldlM unpackBit s = .ok s' ∧ s'.src = []) ∧
      (s.src.length + 2 ≤ bits.count true →
        ∃ size, bits.foldlM unpackBit s = .error (some (.refused size)) ∧
          s.size ≤ size ∧ size < s.size + bits.length)) := by
  induction bits generalizing s with
  | nil => exact absurd few (Nat.not_lt_zero _)
  | cons bit bits ih =>
    rw [List.foldlM_cons, List.length_cons]
    cases bit with
    | false =>
      rw [show (false :: bits).count true = bits.count true by simp] at few ⊢
      have step : unpackBit s false = .ok (s.put 0) := rfl
      obtain ⟨outside, full⟩ := ih (s.put 0) (going.put 0) (by rwa [put_src])
      rw [put_src, put_size] at outside full
      rw [step, missingAt]
      refine ⟨fun less => outside (by omega), fun most => ?_⟩
      obtain ⟨one, more⟩ := full (by omega)
      refine ⟨one, fun two => ?_⟩
      obtain ⟨size, folded, least, less⟩ := more two
      exact ⟨size, folded, by omega, by omega⟩
    | true =>
      rw [show (true :: bits).count true = bits.count true + 1 by simp] at few ⊢
      cases src : s.src with
      | nil =>
        rw [List.length_nil, missingAt, Nat.add_zero]
        have start : unpackBit s true =
            if 0 < s.bufsz then .error none
            else .ok { s with missing := true, size := s.size + 1 } := by
          simp [unpackBit, src, going.whole]
        refine ⟨fun less => ?_, fun full => ?_⟩
        · rw [start, if_pos (going.room_iff.mpr less)]
          rfl
        · rw [start, if_neg (by rw [going.room_iff]; omega)]
          obtain ⟨none_, some_⟩ := unpackBits_missing bits
            { s with missing := true, size := s.size + 1 } rfl src
          refine ⟨fun one => none_ (by omega), fun more => ?_⟩
          obtain ⟨size, folded, least, less⟩ := some_ (by omega)
          simp only at least less
          exact ⟨size, folded, by omega, by omega⟩
      | cons byte rest =>
        rw [src] at few
        have step : unpackBit s true = .ok ({ s with src := rest }.put byte) := by
          simp [unpackBit, src]
        have start : Going room { s with src := rest } := ⟨going.whole, going.bufsz⟩
        have later := ih _ (start.put byte) (by rw [put_src]; exact Nat.lt_of_succ_lt_succ few)
        rw [put_src, put_size] at later
        simp only at later
        rw [step, List.length_cons, missingAt]
        obtain ⟨outside, full⟩ := later
        refine ⟨fun less => outside (by omega), fun most => ?_⟩
        obtain ⟨one, more⟩ := full (by omega)
        refine ⟨fun only => one (by omega), fun two => ?_⟩
        obtain ⟨size, folded, least, less⟩ := more (by omega)
        exact ⟨size, folded, by omega, by omega⟩

theorem unpackLoop_bitmap (turns : Nat) (s : UnpackLoop) (header : UInt8) (rest : List UInt8)
    (other : header ≠ 0xff) (src : s.src = header :: rest) :
    unpackLoop (turns + 1) s =
      match (headerBits header).foldlM unpackBit { s with src := rest } with
      | .error result => result
      | .ok s => unpackLoop turns s := by
  rw [unpackLoop, src, headerBits, List.foldlM_map]
  exact if_neg other

theorem Groups.unpacked {front out : List UInt8} (groups : Groups front out) (room turns : Nat)
    (s : UnpackLoop) (going : Going room s) (rest : List UInt8) (src : s.src = front ++ rest)
    (enough : s.src.length < turns) :
    ∃ turns' s', unpackLoop turns s = unpackLoop turns' s' ∧ Going room s' ∧ s'.src = rest ∧
      s'.size = s.size + out.length ∧ rest.length < turns' := by
  induction groups generalizing turns s with
  | nil => exact ⟨turns, s, rfl, going, src, rfl, by rw [src] at enough; exact enough⟩
  | @run count body later out whole groups ih =>
    obtain ⟨more, rfl⟩ : ∃ more, turns = more + 1 := ⟨turns - 1, by omega⟩
    have taken : (body ++ later ++ rest).drop ((count.toNat + 1) * 8) = later ++ rest := by
      rw [List.append_assoc, ← whole, List.drop_left]
    rw [src] at enough
    simp only [List.cons_append, List.length_cons, List.length_append] at enough
    obtain ⟨middle, turn, going', read, grown⟩ :
        ∃ middle, unpackLoop (more + 1) s = unpackLoop more middle ∧ Going room middle ∧
          middle.src = later ++ rest ∧ middle.size = s.size + body.length := by
      rw [unpackLoop, src]
      simp only [List.cons_append, if_true]
      rw [if_neg (by simp only [List.length_append]; omega), taken]
      have := going.bufsz
      exact ⟨_, rfl, ⟨rfl, by simp only; omega⟩, rfl, congrArg (s.size + ·) whole.symm⟩
    obtain ⟨turns', s', loop, going'', left, size, left_⟩ := ih more middle going' read (by
      rw [read, List.length_append]
      omega)
    refine ⟨turns', s', turn.trans loop, going'', left, ?_, left_⟩
    rw [size, grown, List.length_append, Nat.add_assoc]
  | @bitmap header other body later out whole groups ih =>
    obtain ⟨more, rfl⟩ : ∃ more, turns = more + 1 := ⟨turns - 1, by omega⟩
    rw [src] at enough
    simp only [List.cons_append, List.length_cons, List.length_append] at enough
    obtain ⟨middle, folded, going', left, grown⟩ :=
      unpackBits_whole room (headerBits header) { s with src := body ++ later ++ rest }
        ⟨going.whole, going.bufsz⟩ (by
          simp only [List.length_append]
          omega)
    have turn : unpackLoop (more + 1) s = unpackLoop more middle := by
      rw [unpackLoop_bitmap more s header (body ++ later ++ rest) other src, folded]
    simp only [List.append_assoc, ← whole, List.drop_left] at left
    obtain ⟨turns', s', loop, going'', done, size, left_⟩ := ih more middle going' left (by
      rw [left, List.length_append]
      omega)
    refine ⟨turns', s', turn.trans loop, going'', done, ?_, left_⟩
    rw [size, grown, List.length_append, length_spread]
    simp only
    omega

-- The call goes on behind complete groups at the beginning of the source.
theorem Groups.front {front out : List UInt8} (groups : Groups front out)
    (rest buffer : List UInt8) :
    ∃ turns s, sprotoUnpack (front ++ rest) buffer = unpackLoop (turns + 1) s ∧
      Going buffer.length s ∧ s.src = rest ∧ s.size = out.length ∧ rest.length ≤ turns := by
  have start : Going buffer.length
      { src := front ++ rest, missing := false, buffer := buffer, pos := 0, bufsz := buffer.length,
        size := 0 } :=
    ⟨rfl, .inl (by simp)⟩
  obtain ⟨turns, s, loop, going, left, size, more⟩ :=
    groups.unpacked buffer.length _ _ start rest rfl (Nat.lt_succ_self _)
  obtain ⟨turns, rfl⟩ : ∃ k, turns = k + 1 := ⟨turns - 1, by omega⟩
  exact ⟨turns, s, loop, going, left, size.trans (Nat.zero_add _), Nat.le_of_lt_succ more⟩

theorem unpacked_complete (src buffer : List UInt8) {out : List UInt8} (groups : Groups src out) :
    ∃ buffer', sprotoUnpack src buffer = some (.size out.length buffer') := by
  obtain ⟨turns, s, loop, -, left, size, -⟩ := groups.front [] buffer
  rw [List.append_nil] at loop
  refine ⟨s.buffer, loop.trans ?_⟩
  rw [unpackLoop, left, size]

theorem unpacked_cutRun (src buffer : List UInt8) (size : Nat) (cut : CutRun src size) :
    sprotoUnpack src buffer = some (.refused size) := by
  obtain ⟨front, count, body, out, rfl, groups, length, few⟩ := cut
  obtain ⟨turns, s, loop, -, left, counted, -⟩ := groups.front (0xff :: count :: body) buffer
  refine loop.trans ?_
  rw [unpackLoop, left, counted, length]
  simp only [if_true]
  rw [if_pos few]

theorem unpacked_cutCount (src buffer : List UInt8) (cut : CutCount src) :
    sprotoUnpack src buffer = none := by
  obtain ⟨front, rfl, ⟨out, groups⟩⟩ := cut
  obtain ⟨turns, s, loop, -, left, -, -⟩ := groups.front [0xff] buffer
  refine loop.trans ?_
  rw [unpackLoop, left]
  rfl

-- A missing byte is read where the block has room for it; else the first one goes unnoticed, and
-- the second one is refused.
theorem unpacked_cutWord (src buffer : List UInt8) (header : UInt8) (size left : Nat)
    (cut : CutWord src header size left) :
    (size + missingAt (headerBits header) left < buffer.length → sprotoUnpack src buffer = none) ∧
    (buffer.length ≤ size + missingAt (headerBits header) left →
      (left + 2 ≤ (headerBits header).count true →
        ∃ counted, sprotoUnpack src buffer = some (.refused counted) ∧ size ≤ counted ∧
          counted < size + 8) ∧
      ((headerBits header).count true = left + 1 →
        ∃ counted buffer', sprotoUnpack src buffer = some (.size counted buffer'))) := by
  obtain ⟨front, body, out, rfl, groups, rfl, rfl, other, few⟩ := cut
  obtain ⟨turns, s, loop, going, rest, counted, more⟩ := groups.front (header :: body) buffer
  obtain ⟨turns, rfl⟩ : ∃ k, turns = k + 1 := ⟨turns - 1, by simp only [List.length_cons] at more; omega⟩
  have eight : (headerBits header).length = 8 := List.length_map _
  obtain ⟨outside, full⟩ := unpackBits_short buffer.length (headerBits header)
    { s with src := body } ⟨going.whole, going.bufsz⟩ few
  simp only [eight] at outside full
  rw [← counted]
  rw [loop, unpackLoop_bitmap (turns + 1) s header body other rest]
  refine ⟨fun less => by rw [outside less], fun most => ?_⟩
  obtain ⟨one, two⟩ := full most
  constructor
  · intro refused
    obtain ⟨counted, folded, least, less⟩ := two refused
    exact ⟨counted, by rw [folded], least, less⟩
  · intro single
    obtain ⟨s', folded, empty⟩ := one single
    exact ⟨s'.size, s'.buffer, by rw [folded]; simp only [unpackLoop, empty]⟩

theorem Groups.cancel {front rest out whole : List UInt8} (first : Groups front out)
    (all : Groups (front ++ rest) whole) : Complete rest := by
  induction first generalizing whole with
  | nil => exact ⟨whole, all⟩
  | @run count body later out length groups ih =>
    generalize same : 0xff :: count :: (body ++ later) ++ rest = src at all
    cases all with
    | nil => cases same
    | @run count' body' later' out' length' groups' =>
      obtain ⟨-, behind⟩ := List.cons.inj same
      obtain ⟨rfl, bodies⟩ := List.cons.inj behind
      have bodies : body ++ (later ++ rest) = body' ++ later' :=
        (List.append_assoc ..).symm.trans bodies
      obtain ⟨-, rfl⟩ := List.append_inj bodies (by rw [length, length'])
      exact ih groups'
    | bitmap other => exact absurd (List.cons.inj same).1.symm other
  | @bitmap header other body later out length groups ih =>
    generalize same : header :: (body ++ later) ++ rest = src at all
    cases all with
    | nil => cases same
    | run => exact absurd (List.cons.inj same).1 other
    | @bitmap header' other' body' later' out' length' groups' =>
      obtain ⟨rfl, bodies⟩ := List.cons.inj same
      have bodies : body ++ (later ++ rest) = body' ++ later' :=
        (List.append_assoc ..).symm.trans bodies
      obtain ⟨-, rfl⟩ := List.append_inj bodies (by rw [length, length'])
      exact ih groups'

theorem CutRun.incomplete {src : List UInt8} {size : Nat} (cut : CutRun src size) :
    ¬Complete src := by
  rintro ⟨whole, all⟩
  obtain ⟨front, count, body, out, rfl, groups, -, few⟩ := cut
  obtain ⟨more, later⟩ := groups.cancel all
  generalize same : 0xff :: count :: body = rest at later
  cases later with
  | nil => cases same
  | run count' length =>
    obtain ⟨-, same⟩ := List.cons.inj same
    obtain ⟨rfl, rfl⟩ := List.cons.inj same
    rw [List.length_append] at few
    omega
  | bitmap other => exact absurd (List.cons.inj same).1.symm other

theorem CutWord.incomplete {src : List UInt8} {header : UInt8} {size left : Nat}
    (cut : CutWord src header size left) : ¬Complete src := by
  rintro ⟨whole, all⟩
  obtain ⟨front, body, out, rfl, groups, -, rfl, other, few⟩ := cut
  obtain ⟨more, later⟩ := groups.cancel all
  generalize same : header :: body = rest at later
  cases later with
  | nil => cases same
  | run => exact absurd (List.cons.inj same).1 other
  | bitmap other' length =>
    obtain ⟨rfl, rfl⟩ := List.cons.inj same
    rw [List.length_append] at few
    omega

-- What a source is, by the first of its groups that is not complete.
inductive Stream (src : List UInt8) : Prop where
  | complete (groups : Complete src)
  | run (size : Nat) (cut : CutRun src size)
  | count (cut : CutCount src)
  | word (header : UInt8) (size left : Nat) (cut : CutWord src header size left)

theorem Groups.before {front out src : List UInt8} (groups : Groups front out)
    (stream : Stream src) : Stream (front ++ src) := by
  cases stream with
  | complete whole =>
    obtain ⟨more, whole⟩ := whole
    exact .complete ⟨_, groups.append whole⟩
  | run size cut =>
    obtain ⟨middle, count, body, more, rfl, whole, rfl, few⟩ := cut
    exact .run _ ⟨front ++ middle, count, body, _, (List.append_assoc ..).symm,
      groups.append whole, rfl, few⟩
  | count cut =>
    obtain ⟨middle, rfl, ⟨more, whole⟩⟩ := cut
    exact .count ⟨front ++ middle, (List.append_assoc ..).symm, ⟨_, groups.append whole⟩⟩
  | word header size left cut =>
    obtain ⟨middle, body, more, rfl, whole, rfl, few⟩ := cut
    exact .word header _ left ⟨front ++ middle, body, _, (List.append_assoc ..).symm,
      groups.append whole, rfl, few⟩

theorem stream_cases (src : List UInt8) : Stream src := by
  induction length : src.length using Nat.strong_induction_on generalizing src with
  | _ n ih =>
    cases src with
    | nil => exact .complete ⟨[], .nil⟩
    | cons header body =>
      by_cases run : header = 0xff
      · subst run
        cases body with
        | nil => exact .count ⟨[], rfl, ⟨[], .nil⟩⟩
        | cons count body =>
          by_cases few : body.length < (count.toNat + 1) * 8
          · exact .run 0 ⟨[], count, body, [], rfl, .nil, rfl, few⟩
          · have whole : (body.take ((count.toNat + 1) * 8)).length = (count.toNat + 1) * 8 := by
              rw [List.length_take]
              omega
            have group := Groups.run count whole .nil
            have later := group.before (ih _ (by
              rw [← length, List.length_cons, List.length_cons, List.length_drop]
              omega) (body.drop ((count.toNat + 1) * 8)) rfl)
            simpa only [List.cons_append, List.append_nil, List.take_append_drop] using later
      · by_cases few : body.length < (headerBits header).count true
        · exact .word header 0 body.length ⟨[], body, [], rfl, .nil, rfl, rfl, run, few⟩
        · have whole : (body.take ((headerBits header).count true)).length =
              (headerBits header).count true := by
            rw [List.length_take]
            omega
          have group := Groups.bitmap run whole .nil
          have later := group.before (ih _ (by
            rw [← length, List.length_cons, List.length_drop]
            omega) (body.drop ((headerBits header).count true)) rfl)
          simpa only [List.cons_append, List.append_nil, List.take_append_drop] using later

theorem unpacksSafely_refused {src buffer : List UInt8} {counted : Nat}
    (returned : sprotoUnpack src buffer = some (.refused counted)) (cut : ¬Complete src) :
    UnpacksSafely src buffer ↔ counted < 2 ^ 31 := by
  constructor
  · rintro ⟨result, same, fits, -⟩
    cases returned.symm.trans same
    exact fits
  · intro fits
    exact ⟨_, returned, fits, ⟨fun _ => cut, fun _ => rfl⟩, fun out groups => absurd ⟨out, groups⟩ cut⟩

theorem unpacksSafely_iff (src buffer : List UInt8) :
    UnpacksSafely src buffer ↔
      (∃ out, Groups src out ∧ out.length < 2 ^ 31) ∨
      (∃ size, CutRun src size ∧ size < 2 ^ 31) ∨
      ∃ header size left, CutWord src header size left ∧ size < 2 ^ 31 ∧
        left + 2 ≤ (headerBits header).count true ∧
        buffer.length ≤ size + missingAt (headerBits header) left := by
  constructor
  · intro safe
    obtain ⟨result, returned, fits, refused, -⟩ := id safe
    cases stream_cases src with
    | complete whole =>
      obtain ⟨out, groups⟩ := whole
      obtain ⟨buffer', same⟩ := unpacked_complete src buffer groups
      cases returned.symm.trans same
      exact .inl ⟨out, groups, fits⟩
    | run size cut =>
      rw [unpacksSafely_refused (unpacked_cutRun src buffer size cut) cut.incomplete] at safe
      exact .inr (.inl ⟨size, cut, safe⟩)
    | count cut => cases returned.symm.trans (unpacked_cutCount src buffer cut)
    | word header size left cut =>
      obtain ⟨outside, full⟩ := unpacked_cutWord src buffer header size left cut
      by_cases room : size + missingAt (headerBits header) left < buffer.length
      · cases returned.symm.trans (outside room)
      · obtain ⟨two, one⟩ := full (by omega)
        by_cases more : left + 2 ≤ (headerBits header).count true
        · obtain ⟨counted, same, least, -⟩ := two more
          cases returned.symm.trans same
          exact .inr (.inr ⟨header, size, left, cut, least.trans_lt fits, more, by omega⟩)
        · obtain ⟨_, _, _, _, _, _, _, _, few⟩ := id cut
          obtain ⟨counted, buffer', same⟩ := one (by omega)
          cases returned.symm.trans same
          cases refused.mpr cut.incomplete
  · rintro (⟨out, groups, fits⟩ | ⟨size, cut, fits⟩ | ⟨header, size, left, cut, fits, more, room⟩)
    · obtain ⟨buffer', returned⟩ := unpacked_complete src buffer groups
      refine ⟨_, returned, fits, ⟨nofun, fun cut => absurd ⟨out, groups⟩ cut⟩, ?_⟩
      intro other others
      obtain ⟨again, same⟩ := unpacked_complete src buffer others
      exact ⟨again, Option.some.inj (returned.symm.trans same)⟩
    · exact (unpacksSafely_refused (unpacked_cutRun src buffer size cut) cut.incomplete).mpr fits
    · obtain ⟨two, -⟩ := (unpacked_cutWord src buffer header size left cut).2 room
      obtain ⟨counted, returned, -, less⟩ := two more
      obtain ⟨_, _, _, _, groups, rfl, _⟩ := id cut
      have eighths := groups.length_mod
      exact (unpacksSafely_refused returned cut.incomplete).mpr (by omega)

-- Two bytes are missing. They are refused where the block has no room for the first one.
example : sprotoUnpack [3] [] = some (.refused 1) ∧ sprotoUnpack [3] [0] = none := by decide

theorem missing_byte_read : ¬UnpacksSafely [1] [0] := by
  rintro ⟨result, returned, _⟩
  have read : sprotoUnpack [1] [0] = none := by decide
  cases read.symm.trans returned

end Pskynet.Sproto
