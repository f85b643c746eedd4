import Pskynet.Shared.Bytes
import Pskynet.Shared.CInt

set_option autoImplicit false

namespace Pskynet.Crypt

open CInt

-- An error of Lua, or an index that is no `int` any more.
inductive HexFault where
  | error (text : String)
  | overflow
  deriving DecidableEq, Repr

def hexChars : List UInt8 :=
  [48, 49, 50, 51, 52, 53, 54, 55, 56, 57, 97, 98, 99, 100, 101, 102]

def hexChar (v : UInt8) : UInt8 := hexChars.getD v.toNat 0

-- A round of the loop for the byte at `i`, and what comes of the rounds behind it.
def toHexRound (i : Nat) (byte : UInt8) (later : Except HexFault (List UInt8)) :
    Except HexFault (List UInt8) :=
  match arith (i * 2 + 1) with
  | none => .error .overflow
  | some _ => later.map fun more => hexChar (byte >>> 4) :: hexChar (byte &&& 0xf) :: more

def toHexLoop : Nat → List UInt8 → Except HexFault (List UInt8)
  | _, [] => .ok []
  | i, byte :: rest => toHexRound i byte (toHexLoop (i + 1) rest)

def toHex (text : List UInt8) : Except HexFault (List UInt8) := toHexLoop 0 text

def hexValue (c : UInt8) : UInt8 := if 48 ≤ c ∧ c ≤ 57 then c - 48 else c - 97 + 10

-- A round of the loop for the characters at `i`, and what comes of the rounds behind it.
def fromHexRound (i : Nat) (first second : UInt8) (later : Except HexFault (List UInt8)) :
    Except HexFault (List UInt8) :=
  let hi := hexValue first
  let low := hexValue second
  if hi > 16 ∨ low > 16 then .error (.error "Invalid hex text")
  else
    match arith (i + 2) with
    | none => .error .overflow
    | some _ => later.map fun more => (hi <<< 4 ||| low) :: more

def fromHexLoop : Nat → List UInt8 → Except HexFault (List UInt8)
  | _, [] => .ok []
  | i, [first] => fromHexRound i first 0 (.ok [])
  | i, first :: second :: rest => fromHexRound i first second (fromHexLoop (i + 2) rest)

def fromHex (text : List UInt8) : Except HexFault (List UInt8) :=
  if text.length &&& 2 ≠ 0 then
    .error (.error ("Invalid hex text size " ++ toString (toInt text.length)))
  else fromHexLoop 0 text

def LowerHex (c : UInt8) : Prop := (48 ≤ c ∧ c ≤ 57) ∨ (97 ≤ c ∧ c ≤ 102)

instance (c : UInt8) : Decidable (LowerHex c) := inferInstanceAs (Decidable (_ ∨ _))

theorem hexValue_lowerHex (c : UInt8) : LowerHex c → hexValue c < 16 :=
  Bytes.forall_byte (fun c => LowerHex c → hexValue c < 16) (by decide +kernel) c

theorem hexPair (c : UInt8) :
    LowerHex (hexChar (c >>> 4)) ∧ LowerHex (hexChar (c &&& 0xf)) ∧
      (hexValue (hexChar (c >>> 4)) <<< 4 ||| hexValue (hexChar (c &&& 0xf))) = c :=
  Bytes.forall_byte (fun c => LowerHex (hexChar (c >>> 4)) ∧ LowerHex (hexChar (c &&& 0xf)) ∧
    (hexValue (hexChar (c >>> 4)) <<< 4 ||| hexValue (hexChar (c &&& 0xf))) = c) (by decide +kernel) c

def Accepted (c : UInt8) : Prop := (48 ≤ c ∧ c ≤ 57) ∨ (87 ≤ c ∧ c ≤ 103)

instance (c : UInt8) : Decidable (Accepted c) := inferInstanceAs (Decidable (_ ∨ _))

theorem hexValue_high (c : UInt8) : 16 < hexValue c ↔ ¬Accepted c :=
  Bytes.forall_byte (fun c => 16 < hexValue c ↔ ¬Accepted c) (by decide +kernel) c

theorem accepted_lowerHex (c : UInt8) : LowerHex c → Accepted c :=
  Bytes.forall_byte (fun c => LowerHex c → Accepted c) (by decide +kernel) c

def Rejected (i : Nat) (text : List UInt8) : Prop := ∃ c ∈ text.take (2 ^ 31 - i), ¬Accepted c

theorem rejected_cons (i : Nat) (below : i + 2 ≤ 2 ^ 31) (first second : UInt8)
    (rest : List UInt8) : Rejected i (first :: second :: rest) ↔
      (16 < hexValue first ∨ 16 < hexValue second) ∨ Rejected (i + 2) rest := by
  obtain ⟨k, room⟩ : ∃ k, 2 ^ 31 - i = k + 2 := ⟨2 ^ 31 - i - 2, by omega⟩
  have later : 2 ^ 31 - (i + 2) = k := by omega
  simp only [Rejected, room, later, List.take_succ_cons, List.exists_mem_cons_iff, hexValue_high,
    or_assoc]

theorem fromHexRound_rejected (i : Nat) {first second : UInt8}
    (later : Except HexFault (List UInt8))
    (wrong : 16 < hexValue first ∨ 16 < hexValue second) :
    fromHexRound i first second later = .error (.error "Invalid hex text") := by
  simp only [fromHexRound]
  exact if_pos wrong

theorem fromHexRound_last (i : Nat) {first second : UInt8}
    (later : Except HexFault (List UInt8))
    (right : ¬(16 < hexValue first ∨ 16 < hexValue second)) (last : 2 ^ 31 ≤ i + 2) :
    fromHexRound i first second later = .error .overflow := by
  have over_ : arith ((i : Int) + 2) = none := arith_none (by omega)
  simp only [fromHexRound, over_]
  exact if_neg right

theorem fromHexRound_more (i : Nat) {first second : UInt8}
    (later : Except HexFault (List UInt8))
    (right : ¬(16 < hexValue first ∨ 16 < hexValue second)) (more : i + 2 < 2 ^ 31) :
    fromHexRound i first second later =
      later.map fun bytes => (hexValue first <<< 4 ||| hexValue second) :: bytes := by
  have fits : arith ((i : Int) + 2) = some ((i : Int) + 2) := arith_eq (by omega) (by omega)
  simp only [fromHexRound, fits]
  exact if_neg right

inductive Ends (i : Nat) (text : List UInt8) : Except HexFault (List UInt8) → Prop where
  | invalid (wrong : Rejected i text ∨ (i + text.length < 2 ^ 31 ∧ text.length % 2 = 1)) :
      Ends i text (.error (.error "Invalid hex text"))
  | overflow (right : ¬Rejected i text) (large : 2 ^ 31 ≤ i + text.length) :
      Ends i text (.error .overflow)
  | read (bytes : List UInt8) (right : ¬Rejected i text) (small : i + text.length < 2 ^ 31)
      (even : text.length % 2 = 0) : Ends i text (.ok bytes)

theorem fromHexLoop_ends (i : Nat) (text : List UInt8) (below : i + 2 ≤ 2 ^ 31)
    (even : i % 2 = 0) : Ends i text (fromHexLoop i text) := by
  induction i, text using fromHexLoop.induct with
  | case1 i =>
    refine .read [] ?_ (by simp; omega) rfl
    rintro ⟨c, inside, -⟩
    rw [List.take_nil] at inside
    contradiction
  | case2 i first =>
    have zero : 16 < hexValue 0 := by decide
    rw [fromHexLoop, fromHexRound_rejected i _ (.inr zero)]
    exact .invalid (.inr ⟨by simp only [List.length_singleton]; omega, rfl⟩)
  | case3 i first second rest ih =>
    have cons := rejected_cons i below first second rest
    rw [fromHexLoop]
    by_cases wrong : 16 < hexValue first ∨ 16 < hexValue second
    · rw [fromHexRound_rejected i _ wrong]
      exact .invalid (.inl (cons.mpr (.inl wrong)))
    · have cons := cons.trans (or_iff_right wrong)
      have length : (first :: second :: rest).length = rest.length + 2 := rfl
      rcases Nat.lt_or_ge (i + 2) (2 ^ 31) with more | last
      · rw [fromHexRound_more i _ wrong more]
        have ends := ih (by omega) (by omega)
        generalize fromHexLoop (i + 2) rest = later at ends
        cases ends with
        | invalid wrong =>
          exact .invalid (wrong.imp cons.mpr fun both => by omega)
        | overflow right large => exact .overflow (right ∘ cons.mp) (by omega)
        | read bytes right small even => exact .read _ (right ∘ cons.mp) (by omega) (by omega)
      · rw [fromHexRound_last i _ wrong last]
        refine .overflow (fun rejected => ?_) (by omega)
        obtain ⟨c, inside, -⟩ := cons.mp rejected
        rw [Nat.sub_eq_zero_of_le last, List.take_zero] at inside
        contradiction

def hexPairs : List UInt8 → List UInt8
  | [] => []
  | byte :: rest => hexChar (byte >>> 4) :: hexChar (byte &&& 0xf) :: hexPairs rest

theorem toHexLoop_ok (i : Nat) (text : List UInt8) (small : i + text.length ≤ 2 ^ 30) :
    toHexLoop i text = .ok (hexPairs text) := by
  induction text generalizing i with
  | nil => rfl
  | cons byte rest ih =>
    rw [List.length_cons] at small
    have fits : arith ((i : Int) * 2 + 1) = some ((i : Int) * 2 + 1) :=
      arith_eq (by omega) (by omega)
    rw [toHexLoop, ih (i + 1) (by omega)]
    simp only [toHexRound, fits]
    rfl

theorem toHexLoop_overflow (i : Nat) (text : List UInt8) (start : i ≤ 2 ^ 30)
    (large : 2 ^ 30 < i + text.length) : toHexLoop i text = .error .overflow := by
  induction text generalizing i with
  | nil =>
    rw [List.length_nil] at large
    omega
  | cons byte rest ih =>
    rw [List.length_cons] at large
    rcases Nat.lt_or_ge i (2 ^ 30) with below | last
    · have fits : arith ((i : Int) * 2 + 1) = some ((i : Int) * 2 + 1) :=
        arith_eq (by omega) (by omega)
      rw [toHexLoop, ih (i + 1) below (by omega)]
      simp only [toHexRound, fits]
      rfl
    · have over_ : arith ((i : Int) * 2 + 1) = none := arith_none (by omega)
      simp only [toHexLoop, toHexRound, over_]

theorem fromHexLoop_pairs (i : Nat) (text : List UInt8) (even : i % 2 = 0)
    (small : i + 2 * text.length < 2 ^ 31) :
    fromHexLoop i (hexPairs text) = .ok text := by
  induction text generalizing i with
  | nil => rfl
  | cons byte rest ih =>
    rw [List.length_cons] at small
    obtain ⟨first, second, pair⟩ := hexPair byte
    have right : ¬((16 : UInt8) < hexValue (hexChar (byte >>> 4)) ∨
        (16 : UInt8) < hexValue (hexChar (byte &&& 0xf))) := by
      have one := UInt8.lt_iff_toNat_lt.mp (hexValue_lowerHex _ first)
      have two := UInt8.lt_iff_toNat_lt.mp (hexValue_lowerHex _ second)
      rintro (high | low)
      · exact absurd (one.trans (UInt8.lt_iff_toNat_lt.mp high)) (Nat.lt_irrefl _)
      · exact absurd (two.trans (UInt8.lt_iff_toNat_lt.mp low)) (Nat.lt_irrefl _)
    rw [hexPairs, fromHexLoop, fromHexRound_more i _ right (by omega), ih (i + 2) (by omega) (by omega)]
    change Except.ok (_ :: rest) = _
    rw [pair]

theorem length_hexPairs (text : List UInt8) : (hexPairs text).length = 2 * text.length := by
  induction text with
  | nil => rfl
  | cons byte rest ih =>
    rw [hexPairs, List.length_cons, List.length_cons, List.length_cons, ih]
    omega

theorem and_two (n : Nat) : n &&& 2 = 0 ↔ n % 4 < 2 := by
  have half : (n &&& 2) / 2 = n / 2 % 2 := by
    rw [Nat.and_div_two]
    exact Nat.and_one_is_mod _
  have even : (n &&& 2) % 2 ≠ 1 := fun odd => absurd (Nat.and_mod_two_eq_one.mp odd).2 (by decide)
  omega

def RoundTrips (text : List UInt8) : Prop := (toHex text).bind fromHex = .ok text

instance (text : List UInt8) : Decidable (RoundTrips text) := inferInstanceAs (Decidable (_ = _))

def BadHex (text : List UInt8) : Prop := text.length % 2 = 1 ∨ ∃ c ∈ text, ¬LowerHex c

def Checks (text : List UInt8) : Prop :=
  (BadHex text → ∃ message, fromHex text = .error (.error message)) ∧
    (¬BadHex text → ∃ bytes, fromHex text = .ok bytes)

def Checked (text : List UInt8) : Prop :=
  (2 ≤ text.length % 4 ∧ BadHex text) ∨
    (text.length % 4 < 2 ∧ (Rejected 0 text ∨
      (text.length < 2 ^ 31 ∧ (text.length % 2 = 1 ∨ ∀ c ∈ text, LowerHex c))))

theorem roundTrips_iff (text : List UInt8) :
    RoundTrips text ↔ text.length % 2 = 0 ∧ text.length < 2 ^ 30 := by
  rcases Nat.lt_or_ge (2 ^ 30) text.length with large | small
  · refine iff_of_false ?_ (by omega)
    rw [RoundTrips, toHex, toHexLoop_overflow 0 text (Nat.zero_le _) (by omega)]
    exact fun same => nomatch same
  · have written : RoundTrips text ↔ fromHex (hexPairs text) = .ok text := by
      rw [RoundTrips, toHex, toHexLoop_ok 0 text (by omega)]
      rfl
    have pairs := length_hexPairs text
    rw [written, fromHex]
    by_cases refused : (hexPairs text).length &&& 2 = 0
    · have even := (and_two _).mp refused
      rw [if_neg (not_not.mpr refused)]
      rcases Nat.lt_or_ge text.length (2 ^ 30) with fits | full
      · exact iff_of_true (fromHexLoop_pairs 0 text rfl (by omega)) (by omega)
      · refine iff_of_false (fun same => ?_) (by omega)
        have ends := fromHexLoop_ends 0 (hexPairs text) (by omega) rfl
        rw [same] at ends
        cases ends with
        | read bytes right small even => omega
    · have odd := (and_two _).not.mp refused
      rw [if_pos refused]
      exact iff_of_false (fun same => nomatch same) (by omega)

theorem rejected_bad {text : List UInt8} (rejected : Rejected 0 text) : BadHex text := by
  obtain ⟨c, inside, refused⟩ := rejected
  exact .inr ⟨c, List.mem_of_mem_take inside, fun fine => refused (accepted_lowerHex c fine)⟩

theorem badHex_iff (text : List UInt8) :
    ¬BadHex text ↔ text.length % 2 = 0 ∧ ∀ c ∈ text, LowerHex c := by
  simp only [BadHex, not_or, not_exists, not_and, not_not]
  rw [Nat.mod_two_not_eq_one]

theorem checks_iff (text : List UInt8) : Checks text ↔ Checked text := by
  have good := badHex_iff text
  by_cases refused : text.length &&& 2 = 0
  · have low := (and_two _).mp refused
    have high : ¬2 ≤ text.length % 4 := by omega
    have ends := fromHexLoop_ends 0 text (by omega) rfl
    have loop : fromHex text = fromHexLoop 0 text := if_neg (not_not.mpr refused)
    rw [Checks, Checked, loop, or_iff_right fun both => high both.1, and_iff_right low]
    generalize fromHexLoop 0 text = result at ends
    cases ends with
    | invalid wrong =>
      have bad : BadHex text := wrong.elim rejected_bad fun both => .inl both.2
      refine iff_of_true ⟨fun _ => ⟨_, rfl⟩, absurd bad⟩ ?_
      exact wrong.imp_right fun both => ⟨by omega, .inl both.2⟩
    | overflow right large =>
      refine iff_of_false (fun checks => ?_) fun either => ?_
      · by_cases bad : BadHex text
        · obtain ⟨message, same⟩ := checks.1 bad
          exact nomatch same
        · obtain ⟨bytes, same⟩ := checks.2 bad
          exact nomatch same
      · exact either.elim right fun both => by omega
    | read bytes right small even =>
      have odd : ¬text.length % 2 = 1 := by omega
      rw [or_iff_right right]
      constructor
      · intro checks
        refine ⟨by omega, .inr ?_⟩
        by_contra wrong
        obtain ⟨message, same⟩ := checks.1 (not_not.mp fun fine => wrong (good.mp fine).2)
        exact nomatch same
      · rintro ⟨-, fine⟩
        have fine := fine.resolve_left odd
        exact ⟨fun bad => absurd bad (good.mpr ⟨even, fine⟩), fun _ => ⟨bytes, rfl⟩⟩
  · have high := (and_two _).not.mp refused
    have raised : ∃ message, fromHex text = .error (.error message) := ⟨_, if_pos refused⟩
    rw [Checks, Checked, or_iff_left fun both => high both.1]
    constructor
    · intro checks
      refine ⟨by omega, ?_⟩
      by_contra fine
      obtain ⟨bytes, same⟩ := checks.2 fine
      obtain ⟨message, other⟩ := raised
      rw [same] at other
      exact nomatch other
    · rintro ⟨-, bad⟩
      exact ⟨fun _ => raised, absurd bad⟩

theorem hex_iff (text : List UInt8) :
    (RoundTrips text ↔ text.length % 2 = 0 ∧ text.length < 2 ^ 30) ∧
      (Checks text ↔ Checked text) :=
  ⟨roundTrips_iff text, checks_iff text⟩

theorem hex_letters : ¬RoundTrips [97] ∧ ¬Checks [103, 103, 48, 48] := by
  refine ⟨by decide, ?_⟩
  intro checks
  obtain ⟨message, same⟩ := checks.1 (.inr ⟨103, by decide, by decide⟩)
  have read : fromHex [103, 103, 48, 48] = .ok [16, 0] := by decide
  rw [read] at same
  exact nomatch same

end Pskynet.Crypt
