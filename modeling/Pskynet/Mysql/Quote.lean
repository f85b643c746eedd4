import Pskynet.Shared.Bytes

set_option autoImplicit false

namespace Pskynet.Mysql

inductive QuoteFault where
  | error (text : String)
  | outside
  deriving DecidableEq, Repr

def isCounted (c : UInt8) : Bool :=
  c &&& 0x80 = 0 ∧ c ∈ [0, 8, 10, 13, 9, 26, 92, 39, 34]

-- `n` is an `unsigned int`.
def numEscapeLoop : UInt32 → List UInt8 → UInt32
  | n, [] => n
  | n, c :: src => numEscapeLoop (if isCounted c then n + 1 else n) src

def numEscapeSqlStr (src : List UInt8) : UInt32 := numEscapeLoop 0 src

def escapeByte (c : UInt8) : List UInt8 :=
  if c &&& 0x80 = 0 then
    match c with
    | 0 => [92, 48]
    | 8 => [92, 98]
    | 10 => [92, 110]
    | 13 => [92, 114]
    | 9 => [92, 116]
    | 26 => [92, 90]
    | 92 => [92, 92]
    | 39 => [92, 39]
    | 34 => [92, 34]
    | c => [c]
  else [c]

def escapeSqlStr : List UInt8 → List UInt8
  | [] => []
  | c :: src => escapeByte c ++ escapeSqlStr src

-- `p` is what was written to the userdata of `dlen` bytes.
def quoteSqlStr (src : List UInt8) : Except QuoteFault (List UInt8) :=
  if src.length = 0 then .ok [39, 39]
  else
    let escape := (numEscapeSqlStr src).toNat
    let dlen := 2 + src.length + escape
    let p := 39 :: (if escape = 0 then src else escapeSqlStr src) ++ [39]
    if dlen < p.length then .error .outside
    else if p.length ≠ dlen then .error (.error "quote sql string error")
    else .ok p

def bare : List UInt8 → List UInt8
  | [] => []
  | [c] => [c]
  | c :: d :: rest => if c = 92 then bare rest else c :: bare (d :: rest)

def unescapeByte (d : UInt8) : UInt8 :=
  match d with
  | 48 => 0
  | 98 => 8
  | 110 => 10
  | 114 => 13
  | 116 => 9
  | 90 => 26
  | d => d

def unescape : List UInt8 → List UInt8
  | [] => []
  | [c] => [c]
  | c :: d :: rest => if c = 92 then unescapeByte d :: unescape rest else c :: unescape (d :: rest)

structure Closed (inside : List UInt8) : Prop where
  quotes : 39 ∉ bare inside ∧ 34 ∉ bare inside
  backslash : 92 ∉ bare inside
  nul : 0 ∉ inside

def Quotes (src : List UInt8) : Prop :=
  (∃ inside, quoteSqlStr src = .ok (39 :: inside ++ [39]) ∧ Closed inside ∧ unescape inside = src) ∧
    src.length + (numEscapeSqlStr src).toNat = (escapeSqlStr src).length

theorem bare_cons {c : UInt8} (rest : List UInt8) (plain : c ≠ 92) :
    bare (c :: rest) = c :: bare rest := by
  cases rest with
  | nil => rfl
  | cons d rest => rw [bare, if_neg plain]

theorem unescape_cons {c : UInt8} (rest : List UInt8) (plain : c ≠ 92) :
    unescape (c :: rest) = c :: unescape rest := by
  cases rest with
  | nil => rfl
  | cons d rest => rw [unescape, if_neg plain]

theorem escapeByte_cases (c : UInt8) :
    let d := (escapeByte c).getD 1 0
    (isCounted c = true ∧ escapeByte c = [92, d] ∧ unescapeByte d = c ∧ d ≠ 0) ∨
      (isCounted c = false ∧ escapeByte c = [c] ∧ c ≠ 92 ∧ c ≠ 39 ∧ c ≠ 34 ∧ c ≠ 0) :=
  Bytes.forall_byte (fun c =>
    let d := (escapeByte c).getD 1 0
    (isCounted c = true ∧ escapeByte c = [92, d] ∧ unescapeByte d = c ∧ d ≠ 0) ∨
      (isCounted c = false ∧ escapeByte c = [c] ∧ c ≠ 92 ∧ c ≠ 39 ∧ c ≠ 34 ∧ c ≠ 0))
    (by decide +kernel) c

def escapes (src : List UInt8) : Nat := src.countP isCounted

theorem escapes_cons (c : UInt8) (src : List UInt8) :
    escapes (c :: src) = escapes src + if isCounted c then 1 else 0 :=
  List.countP_cons

theorem numEscapeLoop_toNat (n : UInt32) (src : List UInt8) :
    (numEscapeLoop n src).toNat = (n.toNat + escapes src) % 2 ^ 32 := by
  induction src generalizing n with
  | nil => exact (Nat.mod_eq_of_lt n.toNat_lt).symm
  | cons c src ih =>
    rw [numEscapeLoop, ih, escapes_cons]
    split_ifs with counted
    · have next : (n + 1).toNat = (n.toNat + 1) % 2 ^ 32 := UInt32.toNat_add n 1
      omega
    · rfl

theorem numEscapeSqlStr_toNat (src : List UInt8) :
    (numEscapeSqlStr src).toNat = escapes src % 2 ^ 32 := by
  rw [numEscapeSqlStr, numEscapeLoop_toNat]
  exact congrArg (· % 2 ^ 32) (Nat.zero_add _)

theorem length_escapeSqlStr (src : List UInt8) :
    (escapeSqlStr src).length = src.length + escapes src := by
  induction src with
  | nil => rfl
  | cons c src ih =>
    rw [escapeSqlStr, List.length_append, ih, escapes_cons, List.length_cons]
    rcases escapeByte_cases c with ⟨counted, written, -⟩ | ⟨counted, written, -⟩
    · rw [written, counted, if_pos rfl]
      simp only [List.length_cons, List.length_nil]
      omega
    · rw [written, counted, if_neg Bool.false_ne_true, List.length_singleton]
      omega

theorem escapeSqlStr_plain (src : List UInt8) (none : escapes src = 0) :
    escapeSqlStr src = src := by
  induction src with
  | nil => rfl
  | cons c src ih =>
    rw [escapes_cons] at none
    rcases escapeByte_cases c with ⟨counted, -⟩ | ⟨-, written, -⟩
    · rw [counted, if_pos rfl] at none
      omega
    · rw [escapeSqlStr, written, ih (by omega)]
      rfl

theorem escapeSqlStr_closed (src : List UInt8) :
    Closed (escapeSqlStr src) ∧ unescape (escapeSqlStr src) = src := by
  induction src with
  | nil => exact ⟨⟨⟨nofun, nofun⟩, nofun, nofun⟩, rfl⟩
  | cons c src ih =>
    obtain ⟨⟨quotes, backslash, nul⟩, back⟩ := ih
    rw [escapeSqlStr]
    rcases escapeByte_cases c with ⟨-, written, same, filled⟩ |
      ⟨-, written, slash, quote, double, filled⟩
    · rw [written]
      refine ⟨⟨quotes, backslash, ?_⟩, ?_⟩
      · simpa using ⟨filled.symm, nul⟩
      · change unescapeByte _ :: unescape (escapeSqlStr src) = c :: src
        rw [same, back]
    · rw [written, List.singleton_append]
      refine ⟨⟨?_, ?_, ?_⟩, ?_⟩
      · rw [bare_cons _ slash, List.mem_cons, List.mem_cons]
        exact ⟨not_or.mpr ⟨quote.symm, quotes.1⟩, not_or.mpr ⟨double.symm, quotes.2⟩⟩
      · rw [bare_cons _ slash, List.mem_cons]
        exact not_or.mpr ⟨slash.symm, backslash⟩
      · rw [List.mem_cons]
        exact not_or.mpr ⟨filled.symm, nul⟩
      · rw [unescape_cons _ slash, back]

theorem quoteSqlStr_escaped (src : List UInt8) (few : escapes src < 2 ^ 32) :
    quoteSqlStr src = .ok (39 :: escapeSqlStr src ++ [39]) := by
  have counted := numEscapeSqlStr_toNat src
  rw [Nat.mod_eq_of_lt few] at counted
  have length := length_escapeSqlStr src
  cases src with
  | nil => rfl
  | cons c src =>
    have body : (if escapes (c :: src) = 0 then c :: src else escapeSqlStr (c :: src)) =
        escapeSqlStr (c :: src) := by
      split_ifs with none
      · exact (escapeSqlStr_plain _ none).symm
      · rfl
    have size : (39 :: escapeSqlStr (c :: src) ++ [39]).length =
        2 + (c :: src).length + escapes (c :: src) := by
      rw [List.length_append, List.length_cons, length, List.length_singleton]
      omega
    simp only [quoteSqlStr, counted, body, size]
    rw [if_neg (by simp), if_neg (Nat.lt_irrefl _), if_neg (not_not.mpr rfl)]

theorem few_of_quotes {src : List UInt8} (quotes : Quotes src) : escapes src < 2 ^ 32 := by
  have counted := numEscapeSqlStr_toNat src
  have length := length_escapeSqlStr src
  obtain ⟨-, same⟩ := quotes
  omega

theorem quotes_iff (src : List UInt8) : Quotes src ↔ escapes src < 2 ^ 32 := by
  have counted := numEscapeSqlStr_toNat src
  have length := length_escapeSqlStr src
  constructor
  · exact few_of_quotes
  · intro few
    obtain ⟨closed, back⟩ := escapeSqlStr_closed src
    exact ⟨⟨_, quoteSqlStr_escaped src few, closed, back⟩, by omega⟩

theorem quoteSqlStr_injective (src other : List UInt8) (few : escapes src < 2 ^ 32)
    (fewOther : escapes other < 2 ^ 32) (same : quoteSqlStr src = quoteSqlStr other) :
    src = other := by
  rw [quoteSqlStr_escaped src few, quoteSqlStr_escaped other fewOther] at same
  have inside := List.append_cancel_right (List.cons.inj (Except.ok.inj same)).2
  rw [← (escapeSqlStr_closed src).2, inside, (escapeSqlStr_closed other).2]

theorem escapes_replicate (n : Nat) (c : UInt8) (counted : isCounted c = true) :
    escapes (List.replicate n c) = n := by
  rw [escapes, List.countP_replicate, if_pos counted]

theorem quoteSqlStr_uncounted (src : List UInt8) (filled : src ≠ [])
    (none : escapes src % 2 ^ 32 = 0) : quoteSqlStr src = .ok (39 :: src ++ [39]) := by
  have counted := numEscapeSqlStr_toNat src
  rw [none] at counted
  have size : (39 :: src ++ [39]).length = 2 + src.length + 0 := by
    rw [List.length_append, List.length_cons, List.length_singleton]
    omega
  simp only [quoteSqlStr, counted, if_true, size]
  rw [if_neg (List.length_pos_iff.mpr filled).ne', if_neg (Nat.lt_irrefl _),
    if_neg (not_not.mpr rfl)]

-- As many quotes as an `unsigned int` has values
theorem uncounted_quotes :
    quoteSqlStr (List.replicate (2 ^ 32) 39) = .ok (39 :: List.replicate (2 ^ 32) 39 ++ [39]) ∧
      ¬Quotes (List.replicate (2 ^ 32) 39) := by
  have count := escapes_replicate (2 ^ 32) 39 (by decide)
  refine ⟨quoteSqlStr_uncounted _ ?_ ?_, ?_⟩
  · rw [ne_eq, List.replicate_eq_nil_iff]
    decide
  · rw [count, Nat.mod_self]
  · intro quotes
    have few := few_of_quotes quotes
    rw [count] at few
    exact Nat.lt_irrefl _ few

example : quoteSqlStr [39, 0, 97] = .ok [39, 92, 39, 92, 48, 97, 39] := by decide

end Pskynet.Mysql
