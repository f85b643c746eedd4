import Pskynet.Shared.LittleEndian
import Pskynet.Shared.Words

set_option autoImplicit false

namespace Pskynet.Crypt

inductive Fault where
  | error (text : String)
  | endless
  deriving DecidableEq, Repr

def prime : UInt64 := 0xffffffffffffffc5

def addModP (a m : UInt64) : UInt64 :=
  let t := prime - a
  if m ≥ t then m - t else m + a

def doubleModP (a : UInt64) : UInt64 := if a ≥ prime - a then a * 2 - prime else a * 2

structure MulState where
  a : UInt64
  b : UInt64
  m : UInt64

def MulState.turn (s : MulState) : MulState where
  a := doubleModP s.a
  b := s.b >>> 1
  m := if s.b &&& 1 = 1 then addModP s.a s.m else s.m

theorem MulState.turn_a (s : MulState) : s.turn.a = doubleModP s.a := by rw [MulState.turn]

theorem MulState.turn_b (s : MulState) : s.turn.b = s.b >>> 1 := by rw [MulState.turn]

theorem MulState.turn_m (s : MulState) :
    s.turn.m = if s.b &&& 1 = 1 then addModP s.a s.m else s.m := by rw [MulState.turn]

theorem shiftRight_one_lt (b : UInt64) (more : b ≠ 0) : (b >>> 1).toNat < b.toNat := by
  have positive : b.toNat ≠ 0 := fun zero => more (UInt64.toNat_inj.mp zero)
  rw [UInt64.toNat_shiftRight]
  change b.toNat >>> 1 < b.toNat
  omega

def mulLoop (s : MulState) : UInt64 :=
  if s.b = 0 then s.m else mulLoop s.turn
termination_by s.b.toNat
decreasing_by exact shiftRight_one_lt s.b (by assumption)

def mulModP (a b : UInt64) : UInt64 := mulLoop { a := a, b := b, m := 0 }

def powModP (a b : UInt64) : Except Fault UInt64 :=
  if b = 1 then .ok a
  else if b = 0 then .error .endless
  else do
    let t ← powModP a (b >>> 1)
    let t := mulModP t t
    pure (if b % 2 ≠ 0 then mulModP t a else t)
termination_by b.toNat
decreasing_by exact shiftRight_one_lt b (by assumption)

def powmodp (a b : UInt64) : Except Fault UInt64 := powModP (if a > prime then a % prime else a) b

def push64 (r : UInt64) : List UInt8 := LittleEndian.bytes 8 r.toNat

def half (x : List UInt8) (i : Nat) : UInt32 :=
  UInt32.ofNat (LittleEndian.value ((x.drop (4 * i)).take 4))

def joined (x : List UInt8) : UInt64 := (half x 0).toUInt64 ||| (half x 1).toUInt64 <<< 32

def read64 (x y : List UInt8) : Except Fault (UInt64 × UInt64) :=
  if x.length ≠ 8 then .error (.error "Invalid uint64 x")
  else if y.length ≠ 8 then .error (.error "Invalid uint64 y")
  else .ok (joined x, joined y)

def dhsecret (x y : List UInt8) : Except Fault (List UInt8) := do
  let (x, y) ← read64 x y
  let r ← powmodp x y
  pure (push64 r)

def generator : UInt64 := 5

def dhexchange (x : List UInt8) : Except Fault (List UInt8) :=
  if x.length ≠ 8 then .error (.error "Invalid dh uint64 key")
  else do
    let r ← powmodp generator (joined x)
    pure (push64 r)

def modulus : Nat := 2 ^ 64 - 59

theorem modulus_eq : modulus = 18446744073709551557 := rfl

theorem modulus_pos : 0 < modulus := modulus_eq ▸ Nat.zero_lt_succ _

theorem prime_toNat : prime.toNat = modulus := rfl

structure MulState.Reduced (s : MulState) : Prop where
  a : s.a.toNat < modulus
  m : s.m.toNat < modulus

theorem toNat_addModP (a m : UInt64) (reduced : a.toNat < modulus) (sum : m.toNat < modulus) :
    (addModP a m).toNat = (m.toNat + a.toNat) % modulus := by
  have t : (prime - a).toNat = modulus - a.toNat :=
    UInt64.toNat_sub_of_le _ _ (UInt64.le_iff_toNat_le.mpr reduced.le)
  unfold addModP
  simp only
  by_cases over_ : m ≥ prime - a
  · rw [if_pos over_]
    have above := UInt64.le_iff_toNat_le.mp over_
    rw [UInt64.toNat_sub_of_le _ _ over_, t]
    rw [t] at above
    rw [modulus_eq] at *
    omega
  · rw [if_neg over_]
    have below : ¬(prime - a).toNat ≤ m.toNat := fun is => over_ (UInt64.le_iff_toNat_le.mpr is)
    rw [UInt64.toNat_add]
    rw [t] at below
    rw [modulus_eq] at *
    omega

theorem double_sub (word p a : Nat) (reduced : a < p) (fits : p ≤ word) (above : p ≤ a * 2) :
    (word - p + a * 2 % word) % word = a * 2 % p := by
  have once : a * 2 % p = a * 2 - p := by
    rw [Nat.mod_eq_sub_mod above, Nat.mod_eq_of_lt (by omega)]
  rw [once]
  rcases Nat.lt_or_ge (a * 2) word with below | wraps
  · have sum : word - p + a * 2 = word + (a * 2 - p) := by omega
    rw [Nat.mod_eq_of_lt below, sum, Nat.add_mod_left, Nat.mod_eq_of_lt (by omega)]
  · have rest : a * 2 % word = a * 2 - word := by
      rw [Nat.mod_eq_sub_mod wraps, Nat.mod_eq_of_lt (by omega)]
    have sum : word - p + (a * 2 - word) = a * 2 - p := by omega
    rw [rest, sum, Nat.mod_eq_of_lt (by omega)]

theorem modulus_le : modulus ≤ 2 ^ 64 := Nat.sub_le _ _

theorem toNat_doubleModP (a : UInt64) (reduced : a.toNat < modulus) :
    (doubleModP a).toNat = a.toNat * 2 % modulus := by
  have t : (prime - a).toNat = modulus - a.toNat :=
    UInt64.toNat_sub_of_le _ _ (UInt64.le_iff_toNat_le.mpr reduced.le)
  have twice : (a * 2).toNat = a.toNat * 2 % 2 ^ 64 := UInt64.toNat_mul a 2
  have fits := modulus_le
  unfold doubleModP
  by_cases over_ : a ≥ prime - a
  · rw [if_pos over_]
    have above := UInt64.le_iff_toNat_le.mp over_
    rw [t] at above
    rw [UInt64.toNat_sub, twice, prime_toNat]
    exact double_sub _ _ _ reduced fits (by omega)
  · rw [if_neg over_]
    have below : ¬(prime - a).toNat ≤ a.toNat := fun is => over_ (UInt64.le_iff_toNat_le.mpr is)
    rw [t] at below
    rw [twice, Nat.mod_eq_of_lt (by omega), Nat.mod_eq_of_lt (by omega)]

theorem toNat_half (b : UInt64) : (b >>> 1).toNat = b.toNat / 2 := by
  rw [UInt64.toNat_shiftRight]
  exact Nat.shiftRight_one b.toNat

theorem odd_iff (b : UInt64) : b &&& 1 = 1 ↔ b.toNat % 2 = 1 := by
  rw [← UInt64.toNat_inj, UInt64.toNat_and]
  exact iff_of_eq (congrArg (· = 1) (Nat.and_one_is_mod b.toNat))

theorem MulState.Reduced.turn {s : MulState} (reduced : s.Reduced) : s.turn.Reduced where
  a := by
    rw [MulState.turn_a, toNat_doubleModP s.a reduced.a]
    exact Nat.mod_lt _ modulus_pos
  m := by
    rw [MulState.turn_m]
    split_ifs
    · rw [toNat_addModP s.a s.m reduced.a reduced.m]
      exact Nat.mod_lt _ modulus_pos
    · exact reduced.m

theorem turn_sum (s : MulState) (reduced : s.Reduced) :
    (s.turn.m.toNat + s.turn.a.toNat * s.turn.b.toNat) % modulus =
      (s.m.toNat + s.a.toNat * s.b.toNat) % modulus := by
  have m : s.turn.m.toNat = (s.m.toNat + s.b.toNat % 2 * s.a.toNat) % modulus := by
    rw [MulState.turn_m]
    by_cases odd : s.b &&& 1 = 1
    · rw [if_pos odd, toNat_addModP s.a s.m reduced.a reduced.m, (odd_iff s.b).mp odd, Nat.one_mul]
    · have even : s.b.toNat % 2 = 0 := by
        have := (odd_iff s.b).not.mp odd
        omega
      rw [if_neg odd, even, Nat.zero_mul, Nat.add_zero, Nat.mod_eq_of_lt reduced.m]
  have parts := Nat.mod_add_div s.b.toNat 2
  rw [m, MulState.turn_a, toNat_doubleModP s.a reduced.a, MulState.turn_b, toNat_half]
  calc ((s.m.toNat + s.b.toNat % 2 * s.a.toNat) % modulus +
        s.a.toNat * 2 % modulus * (s.b.toNat / 2)) % modulus
      = (s.m.toNat + s.b.toNat % 2 * s.a.toNat + s.a.toNat * 2 * (s.b.toNat / 2)) % modulus := by
        simp [Nat.add_mod, Nat.mul_mod]
    _ = (s.m.toNat + s.a.toNat * (s.b.toNat % 2 + 2 * (s.b.toNat / 2))) % modulus := by
        congr 1
        ring
    _ = (s.m.toNat + s.a.toNat * s.b.toNat) % modulus := by rw [parts]

theorem toNat_mulLoop (s : MulState) (reduced : s.Reduced) :
    (mulLoop s).toNat = (s.m.toNat + s.a.toNat * s.b.toNat) % modulus := by
  induction s using mulLoop.induct with
  | case1 s done =>
    rw [mulLoop, if_pos done, done]
    exact (Nat.mod_eq_of_lt reduced.m).symm
  | case2 s more ih =>
    rw [mulLoop, if_neg more, ih reduced.turn, turn_sum s reduced]

theorem toNat_mulModP (a b : UInt64) (reduced : a.toNat < modulus) :
    (mulModP a b).toNat = a.toNat * b.toNat % modulus := by
  have start : MulState.Reduced { a := a, b := b, m := 0 } := ⟨reduced, modulus_pos⟩
  rw [mulModP, toNat_mulLoop _ start]
  simp

theorem powModP_eq (a b : UInt64) (reduced : a.toNat < modulus) (positive : b ≠ 0) :
    ∃ r, powModP a b = .ok r ∧ r.toNat = a.toNat ^ b.toNat % modulus := by
  induction b using powModP.induct with
  | case1 =>
    refine ⟨a, ?_, ?_⟩
    · rw [powModP, if_pos rfl]
    · show a.toNat = a.toNat ^ 1 % modulus
      rw [Nat.pow_one, Nat.mod_eq_of_lt reduced]
  | case2 many => exact absurd rfl positive
  | case3 b many more ih =>
    have above : 2 ≤ b.toNat := by
      have one : b.toNat ≠ 1 := fun is => many (UInt64.toNat_inj.mp is)
      have zero : b.toNat ≠ 0 := fun is => more (UInt64.toNat_inj.mp is)
      omega
    have half := toNat_half b
    have left : b >>> 1 ≠ 0 := by
      intro is
      rw [is] at half
      change 0 = _ at half
      omega
    obtain ⟨t, ran, value⟩ := ih left
    have small : t.toNat < modulus := by
      rw [value]
      exact Nat.mod_lt _ modulus_pos
    have square : (mulModP t t).toNat = a.toNat ^ (2 * (b.toNat / 2)) % modulus := by
      rw [toNat_mulModP t t small, value, half, ← Nat.mul_mod, ← Nat.pow_add, Nat.two_mul]
    have odd : b % 2 ≠ 0 ↔ b.toNat % 2 = 1 := by
      have is : (b % 2).toNat = b.toNat % 2 := UInt64.toNat_mod b 2
      have zero : b % 2 = 0 ↔ b.toNat % 2 = 0 := by
        rw [← is]
        exact UInt64.toNat_inj.symm
      rw [ne_eq, zero]
      omega
    have parts := Nat.mod_add_div b.toNat 2
    refine ⟨if b % 2 ≠ 0 then mulModP (mulModP t t) a else mulModP t t, ?_, ?_⟩
    · rw [powModP, if_neg many, if_neg more, ran]
      rfl
    · by_cases is : b % 2 ≠ 0
      · rw [odd.mp is] at parts
        have reducedSquare : (mulModP t t).toNat < modulus := by
          rw [square]
          exact Nat.mod_lt _ modulus_pos
        have exponent : (2 * (b.toNat / 2)).succ = b.toNat := by omega
        rw [if_pos is, toNat_mulModP _ a reducedSquare, square, Nat.mod_mul_mod, ← Nat.pow_succ,
          exponent]
      · have even : b.toNat % 2 = 0 := by
          have := odd.not.mp is
          omega
        have exponent : 2 * (b.toNat / 2) = b.toNat := by omega
        rw [if_neg is, square, exponent]

-- From the first operands on, what the loop of `mul_mod_p` holds.
inductive MulReach (a b : UInt64) : MulState → Prop where
  | start : MulReach a b { a := a, b := b, m := 0 }
  | turn (s : MulState) (more : s.b ≠ 0) (reached : MulReach a b s) : MulReach a b s.turn

theorem MulReach.reduced {a b : UInt64} {s : MulState} (reached : MulReach a b s)
    (small : a.toNat < modulus) : s.Reduced := by
  induction reached with
  | start => exact ⟨small, modulus_pos⟩
  | turn s _ _ ih => exact ih.turn

theorem toNat_joined (x : List UInt8) (eight : x.length = 8) :
    (joined x).toNat = LittleEndian.value x := by
  have low := LittleEndian.value_lt (x.take 4)
  have high := LittleEndian.value_lt (x.drop 4)
  have front : (x.take 4).length = 4 := by
    rw [List.length_take]
    omega
  have back : (x.drop 4).length = 4 := by
    rw [List.length_drop]
    omega
  have whole := LittleEndian.value_append (x.take 4) (x.drop 4)
  rw [List.take_append_drop, front] at whole
  rw [front] at low
  rw [back] at high
  have first : (half x 0).toNat = LittleEndian.value (x.take 4) := by
    show (UInt32.ofNat (LittleEndian.value (x.take 4))).toNat = _
    rw [UInt32.toNat_ofNat']
    exact Nat.mod_eq_of_lt low
  have second : (half x 1).toNat = LittleEndian.value (x.drop 4) := by
    show (UInt32.ofNat (LittleEndian.value ((x.drop 4).take 4))).toNat = _
    rw [List.take_of_length_le back.le, UInt32.toNat_ofNat']
    exact Nat.mod_eq_of_lt high
  have width : 2 ^ 32 = 256 ^ 4 := by norm_num
  rw [joined, Words.toNat_join, first, second, whole, width]

theorem length_push64 (r : UInt64) : (push64 r).length = 8 := LittleEndian.length_bytes 8 _

theorem joined_push64 (r : UInt64) : joined (push64 r) = r := by
  rw [← UInt64.toNat_inj, toNat_joined _ (length_push64 r)]
  exact LittleEndian.value_bytes_of_lt 8 _ r.toNat_lt

structure Key (x : List UInt8) : Prop where
  length : x.length = 8
  nonzero : ∃ byte ∈ x, byte ≠ 0

theorem Key.joined {x : List UInt8} (key : Key x) : joined x ≠ 0 := by
  intro zero
  obtain ⟨byte, inside, other⟩ := key.nonzero
  have value := toNat_joined x key.length
  rw [zero] at value
  exact other ((LittleEndian.value_eq_zero_iff x).mp value.symm byte inside)

theorem powmodp_eq (a b : UInt64) (reduced : a.toNat < modulus) (positive : b ≠ 0) :
    ∃ r, powmodp a b = .ok r ∧ r.toNat = a.toNat ^ b.toNat % modulus := by
  have small : ¬a > prime := by
    intro big
    have above := UInt64.lt_iff_toNat_lt.mp big
    rw [prime_toNat] at above
    omega
  rw [powmodp, if_neg small]
  exact powModP_eq a b reduced positive

theorem dhexchange_eq {x : List UInt8} (key : Key x) :
    ∃ r, dhexchange x = .ok (push64 r) ∧ r.toNat = 5 ^ LittleEndian.value x % modulus := by
  have five : generator.toNat < modulus := by
    rw [modulus_eq]
    decide
  obtain ⟨r, ran, value⟩ := powmodp_eq generator (joined x) five key.joined
  refine ⟨r, ?_, ?_⟩
  · rw [dhexchange, if_neg (not_not.mpr key.length), ran]
    rfl
  · have base : generator.toNat = 5 := rfl
    rw [value, toNat_joined x key.length, base]

theorem dhsecret_eq {y : List UInt8} (key : Key y) (r : UInt64) (reduced : r.toNat < modulus) :
    dhsecret (push64 r) y =
      .ok (LittleEndian.bytes 8 (r.toNat ^ LittleEndian.value y % modulus)) := by
  obtain ⟨secret, ran, value⟩ := powmodp_eq r (joined y) reduced key.joined
  have read : read64 (push64 r) y = .ok (r, joined y) := by
    unfold read64
    rw [if_neg (not_not.mpr (length_push64 r)), if_neg (not_not.mpr key.length),
      joined_push64]
  rw [dhsecret, read]
  show (do let r ← powmodp r (joined y); pure (push64 r) : Except Fault (List UInt8)) = _
  rw [ran, ← toNat_joined y key.length, ← value]
  rfl

theorem secret_exponent (m n : Nat) : (5 ^ m % modulus) ^ n % modulus = 5 ^ (m * n) % modulus := by
  rw [← Nat.pow_mod, ← Nat.pow_mul]

theorem keys_agree :
    (∀ x y, Key x → Key y → ∃ atServer atClient,
      dhexchange x = .ok atServer ∧ dhexchange y = .ok atClient ∧
      dhsecret atServer y = dhsecret atClient x ∧
      dhsecret atServer y = .ok (LittleEndian.bytes 8
        (5 ^ (LittleEndian.value x * LittleEndian.value y) % (2 ^ 64 - 59)))) ∧
    ∀ a b : UInt64, a.toNat < 2 ^ 64 - 59 → b.toNat < 2 ^ 64 - 59 →
      (mulModP a b).toNat = a.toNat * b.toNat % (2 ^ 64 - 59) ∧
      ∀ s, MulReach a b s → s.a.toNat < 2 ^ 64 - 59 ∧ s.m.toNat < 2 ^ 64 - 59 := by
  constructor
  · intro x y first second
    obtain ⟨r, exchanged, value⟩ := dhexchange_eq first
    obtain ⟨r', exchanged', value'⟩ := dhexchange_eq second
    have reduced : r.toNat < modulus := by
      rw [value]
      exact Nat.mod_lt _ modulus_pos
    have reduced' : r'.toNat < modulus := by
      rw [value']
      exact Nat.mod_lt _ modulus_pos
    refine ⟨_, _, exchanged, exchanged', ?_, ?_⟩
    · rw [dhsecret_eq second r reduced, dhsecret_eq first r' reduced', value, value',
        secret_exponent, secret_exponent, Nat.mul_comm]
    · rw [dhsecret_eq second r reduced, value, secret_exponent, modulus]
  · intro a b small _
    refine ⟨toNat_mulModP a b small, fun s reached => ?_⟩
    have reduced := reached.reduced small
    exact ⟨reduced.a, reduced.m⟩

theorem keys_agree_small : (∃ atServer atClient,
    dhexchange [3, 0, 0, 0, 0, 0, 0, 0] = .ok atServer ∧
      dhexchange [0, 0, 0, 0, 0, 0, 0, 1] = .ok atClient ∧
      dhsecret atServer [0, 0, 0, 0, 0, 0, 0, 1] = dhsecret atClient [3, 0, 0, 0, 0, 0, 0, 0]) ∧
    (mulModP 3 4).toNat = (3 : UInt64).toNat * (4 : UInt64).toNat % (2 ^ 64 - 59) := by
  have first : Key [3, 0, 0, 0, 0, 0, 0, 0] := ⟨rfl, 3, by decide, by decide⟩
  have second : Key [0, 0, 0, 0, 0, 0, 0, 1] := ⟨rfl, 1, by decide, by decide⟩
  obtain ⟨atServer, atClient, one, two, same, _⟩ := keys_agree.1 _ _ first second
  have small (n : UInt64) (few : n.toNat < 5) : n.toNat < 2 ^ 64 - 59 := by omega
  have three := small 3 (by decide)
  have four := small 4 (by decide)
  exact ⟨⟨atServer, atClient, one, two, same⟩, (keys_agree.2 3 4 three four).1⟩

theorem mulLoop_prime (s : MulState) (factor : s.a = prime) (sum : s.m = 0) : mulLoop s = 0 := by
  induction s using mulLoop.induct with
  | case1 s done => rw [mulLoop, if_pos done, sum]
  | case2 s more ih =>
    rw [mulLoop, if_neg more]
    refine ih ?_ ?_
    · rw [MulState.turn_a, factor]
      rfl
    · rw [MulState.turn_m, factor, sum]
      split <;> rfl

theorem mulModP_prime (b : UInt64) : mulModP prime b = 0 := mulLoop_prime _ rfl rfl

theorem mulModP_zero (b : UInt64) : mulModP 0 b = 0 := by
  rw [← UInt64.toNat_inj, toNat_mulModP 0 b modulus_pos]
  exact (congrArg (· % modulus) (Nat.zero_mul b.toNat)).trans (Nat.zero_mod modulus)

theorem powModP_prime (b : UInt64) (positive : b ≠ 0) :
    powModP prime b = .ok (if b = 1 then prime else 0) := by
  induction b using powModP.induct with
  | case1 =>
    rw [powModP, if_pos rfl, if_pos rfl]
  | case2 many => exact absurd rfl positive
  | case3 b many more ih =>
    have left : b >>> 1 ≠ 0 := by
      intro zero
      have half := toNat_half b
      have one : b.toNat ≠ 1 := fun is => many (UInt64.toNat_inj.mp is)
      have none_ : b.toNat ≠ 0 := fun is => more (UInt64.toNat_inj.mp is)
      rw [zero] at half
      change 0 = _ at half
      omega
    rw [powModP, if_neg many, if_neg more, ih left, if_neg many]
    have square : mulModP (if b >>> 1 = 1 then prime else 0)
        (if b >>> 1 = 1 then prime else 0) = 0 := by
      split
      · exact mulModP_prime prime
      · exact mulModP_zero 0
    change Except.ok (if b % 2 ≠ 0 then mulModP (mulModP _ _) prime else mulModP _ _) = _
    rw [square]
    split
    · rw [mulModP_zero]
    · rfl

theorem powModP_zero (a : UInt64) : powModP a 0 = .error .endless := by
  rw [powModP, if_neg (by decide), if_pos rfl]

theorem powmodp_reduced_iff (a b : UInt64) :
    (∃ r, powmodp a b = .ok r ∧ r.toNat < 2 ^ 64 - 59) ↔ b ≠ 0 ∧ ¬(a = prime ∧ b = 1) := by
  by_cases zero : b = 0
  · subst zero
    refine iff_of_false ?_ fun both => both.1 rfl
    rintro ⟨r, ran, -⟩
    rw [powmodp, powModP_zero] at ran
    contradiction
  · by_cases modulo : a = prime
    · subst modulo
      have ran : powmodp prime b = .ok (if b = 1 then prime else 0) := by
        rw [powmodp, if_neg (by decide)]
        exact powModP_prime b zero
      rw [ran]
      by_cases one : b = 1
      · refine iff_of_false ?_ fun both => both.2 ⟨rfl, one⟩
        rintro ⟨r, same, reduced⟩
        obtain rfl := Except.ok.inj same
        rw [if_pos one, prime_toNat, modulus] at reduced
        exact absurd reduced (Nat.lt_irrefl _)
      · refine iff_of_true ⟨0, ?_, modulus_pos⟩ ⟨zero, fun both => one both.2⟩
        rw [if_neg one]
    · refine iff_of_true ?_ ⟨zero, fun both => modulo both.1⟩
      have base : (if a > prime then a % prime else a).toNat < modulus := by
        split
        · rw [UInt64.toNat_mod]
          exact Nat.mod_lt _ modulus_pos
        · rename_i small
          have least : a.toNat ≤ prime.toNat := UInt64.le_iff_toNat_le.mp (UInt64.not_lt.mp small)
          have other : a.toNat ≠ prime.toNat := fun same => modulo (UInt64.toNat_inj.mp same)
          rw [prime_toNat] at least other
          omega
      obtain ⟨r, ran, value⟩ := powModP_eq _ b base zero
      refine ⟨r, ran, ?_⟩
      rw [value]
      exact Nat.mod_lt _ modulus_pos

theorem zero_exponent_endless : ¬∃ r, powmodp 5 0 = .ok r ∧ r.toNat < 2 ^ 64 - 59 := by
  have ran : powmodp 5 0 = .error .endless := by
    rw [powmodp, powModP_zero]
  rintro ⟨r, same, -⟩
  rw [ran] at same
  contradiction

-- `k`, the integer part of the sines of integers (in radians) * 2^32
def sines : List UInt32 :=
  [
    0xd76aa478, 0xe8c7b756, 0x242070db, 0xc1bdceee, 0xf57c0faf, 0x4787c62a, 0xa8304613, 0xfd469501,
    0x698098d8, 0x8b44f7af, 0xffff5bb1, 0x895cd7be, 0x6b901122, 0xfd987193, 0xa679438e, 0x49b40821,
    0xf61e2562, 0xc040b340, 0x265e5a51, 0xe9b6c7aa, 0xd62f105d, 0x02441453, 0xd8a1e681, 0xe7d3fbc8,
    0x21e1cde6, 0xc33707d6, 0xf4d50d87, 0x455a14ed, 0xa9e3e905, 0xfcefa3f8, 0x676f02d9, 0x8d2a4c8a,
    0xfffa3942, 0x8771f681, 0x6d9d6122, 0xfde5380c, 0xa4beea44, 0x4bdecfa9, 0xf6bb4b60, 0xbebfbc70,
    0x289b7ec6, 0xeaa127fa, 0xd4ef3085, 0x04881d05, 0xd9d4d039, 0xe6db99e5, 0x1fa27cf8, 0xc4ac5665,
    0xf4292244, 0x432aff97, 0xab9423a7, 0xfc93a039, 0x655b59c3, 0x8f0ccc92, 0xffeff47d, 0x85845dd1,
    0x6fa87e4f, 0xfe2ce6e0, 0xa3014314, 0x4e0811a1, 0xf7537e82, 0xbd3af235, 0x2ad7d2bb, 0xeb86d391
  ]

-- `r`, the shift amounts
def shifts : List UInt32 :=
  [
    7, 12, 17, 22, 7, 12, 17, 22, 7, 12, 17, 22, 7, 12, 17, 22,
    5, 9, 14, 20, 5, 9, 14, 20, 5, 9, 14, 20, 5, 9, 14, 20,
    4, 11, 16, 23, 4, 11, 16, 23, 4, 11, 16, 23, 4, 11, 16, 23,
    6, 10, 15, 21, 6, 10, 15, 21, 6, 10, 15, 21, 6, 10, 15, 21
  ]

def leftrotate (x c : UInt32) : UInt32 := x <<< c ||| x >>> (32 - c)

structure HmacState where
  a : UInt32
  b : UInt32
  c : UInt32
  d : UInt32

def HmacState.turn (w : List UInt32) (s : HmacState) (i : Nat) : HmacState :=
  let (f, g) :=
    if i < 16 then ((s.b &&& s.c) ||| (~~~s.b &&& s.d), i)
    else if i < 32 then ((s.d &&& s.b) ||| (~~~s.d &&& s.c), (5 * i + 1) % 16)
    else if i < 48 then (s.b ^^^ s.c ^^^ s.d, (3 * i + 5) % 16)
    else (s.c ^^^ (s.b ||| ~~~s.d), 7 * i % 16)
  { a := s.d
    b := s.b + leftrotate (s.a + f + sines.getD i 0 + w.getD g 0) (shifts.getD i 0)
    c := s.b
    d := s.c }

def hmac (x0 x1 y0 y1 : UInt32) : UInt32 × UInt32 :=
  let w := [x1, x0, y1, y0, x1, x0, y1, y0, x1, x0, y1, y0, x1, x0, y1, y0]
  let s := (List.range 64).foldl (HmacState.turn w)
    { a := 0x67452301, b := 0xefcdab89, c := 0x98badcfe, d := 0x10325476 }
  (s.c ^^^ s.d, s.a ^^^ s.b)

def hmac64 (x y : List UInt8) : Except Fault (List UInt8) := do
  let _ ← read64 x y
  let (low, high) := hmac (half x 0) (half x 1) (half y 0) (half y 1)
  pure (LittleEndian.bytes 4 low.toNat ++ LittleEndian.bytes 4 high.toNat)

theorem hmac64_ok {x y : List UInt8} (first : x.length = 8) (second : y.length = 8) :
    ∃ result, hmac64 x y = .ok result ∧ result.length = 8 := by
  refine ⟨LittleEndian.bytes 4 (hmac (half x 0) (half x 1) (half y 0) (half y 1)).1.toNat ++
    LittleEndian.bytes 4 (hmac (half x 0) (half x 1) (half y 0) (half y 1)).2.toNat, ?_, ?_⟩
  · rw [hmac64, read64, if_neg (not_not.mpr first), if_neg (not_not.mpr second)]
    rfl
  · rw [List.length_append, LittleEndian.length_bytes, LittleEndian.length_bytes]

end Pskynet.Crypt
