import Pskynet.Lua.Table
import Pskynet.Shared.Numeral

set_option autoImplicit false

namespace Pskynet.Redis

open Numeral

def crlf : List UInt8 := [13, 10]

section

variable {α : Type}

def upper (name : List UInt8) : List UInt8 :=
  name.map fun c => if 97 ≤ c ∧ c ≤ 122 then c - 32 else c

def packString (lines : List (List UInt8)) (v : List UInt8) : List (List UInt8) :=
  lines ++ [36 :: digits 10 v.length, v]

-- A value of Lua is some `α`, or none for `nil`; a string is what `tostring` makes of a value.
def packValue (tostring : α → List UInt8) (lines : List (List UInt8)) :
    Option α → List (List UInt8)
  | none => lines
  | some v => packString lines (tostring v)

-- The message is a table or any other value. `type(msg)` is never nil.
def composeMessage (tostring : α → List UInt8) (cmd : List UInt8) (msg : Lua.Table α ⊕ Option α) :
    List UInt8 :=
  let len := match msg with
    | .inl t => 1 + t.getn
    | .inr _ => 1 + 1
  let lines := packString [42 :: digits 10 len] cmd
  let lines := match msg with
    | .inl t => t.ipairs.foldl (fun lines v => packValue tostring lines (some v)) lines
    | .inr v => packValue tostring lines v
  crlf.intercalate (lines ++ [[]])

-- A command function is called with `v, ...` under its name.
inductive Call (α : Type) where
  | command (k : List UInt8) (args : List (Option α))
  | exists_ (key : Option α)
  | sismember (key value : Option α)
  deriving DecidableEq, Repr

def argument (table : α → Option (Lua.Table α)) (v : Option α) : Lua.Table α ⊕ Option α :=
  match v.bind table with
  | some t => .inl t
  | none => .inr v

-- `{v, ...}`, with as many slots in the array part as there are values
def construct (args : List (Option α)) : Lua.Table α := ⟨if args = [] then [none] else args, []⟩

namespace Call

def cmd : Call α → List UInt8
  | command k _ => upper k
  | exists_ _ => [69, 88, 73, 83, 84, 83]
  | sismember _ _ => [83, 73, 83, 77, 69, 77, 66, 69, 82]

def msg (table : α → Option (Lua.Table α)) : Call α → Lua.Table α ⊕ Option α
  | command _ args =>
    match args.head?.join.bind table with
    | some t => .inl t
    | none => .inl (construct args)
  | exists_ key => argument table key
  | sismember key value => .inl ⟨[key, value], []⟩

def message (tostring : α → List UInt8) (table : α → Option (Lua.Table α)) (call : Call α) :
    List UInt8 :=
  composeMessage tostring call.cmd (call.msg table)

end Call

def readNumber (bytes : List UInt8) : Option (Nat × List UInt8) :=
  if bytes.head?.any (isDigit 10) then
    match scan 10 0 bytes with
    | (n, 13 :: 10 :: rest) => some (n, rest)
    | _ => none
  else none

def readBulk : List UInt8 → Option (List UInt8 × List UInt8)
  | 36 :: bytes =>
    readNumber bytes >>= fun (len, bytes) =>
      if len ≤ bytes.length ∧ crlf <+: bytes.drop len then
        some (bytes.take len, bytes.drop (len + 2))
      else none
  | _ => none

def readBulks : Nat → List UInt8 → Option (List (List UInt8) × List UInt8)
  | 0, bytes => some ([], bytes)
  | n + 1, bytes =>
    readBulk bytes >>= fun (item, bytes) =>
      (readBulks n bytes).map fun (items, bytes) => (item :: items, bytes)

def readRequest : List UInt8 → Option (List (List UInt8) × List UInt8)
  | 42 :: bytes => readNumber bytes >>= fun (n, bytes) => readBulks n bytes
  | _ => none

def WellFormed (bytes : List UInt8) : Prop := ∃ items, readRequest bytes = some (items, [])

-- The length of a table is the number of its values before the first hole; another value is not
-- `nil`.
def Counted : Lua.Table α ⊕ Option α → Prop
  | .inl t => t.getn = t.ipairs.length
  | .inr v => v ≠ none

def bulk (item : List UInt8) : List UInt8 := 36 :: digits 10 item.length ++ crlf ++ item ++ crlf

def texts (tostring : α → List UInt8) : Lua.Table α ⊕ Option α → List (List UInt8)
  | .inl t => t.ipairs.map tostring
  | .inr v => v.toList.map tostring

def counted : Lua.Table α ⊕ Option α → Nat
  | .inl t => t.getn
  | .inr _ => 1

theorem intercalate_lines (lines : List (List UInt8)) :
    crlf.intercalate (lines ++ [[]]) = lines.flatMap (· ++ crlf) := by
  induction lines with
  | nil => rfl
  | cons line lines ih =>
    obtain ⟨next, rest, more⟩ := List.exists_cons_of_ne_nil (List.append_ne_nil_of_right_ne_nil lines
      (List.cons_ne_nil ([] : List UInt8) []))
    rw [List.cons_append, more, List.intercalate_cons_cons, ← more, ih, List.flatMap_cons]

theorem packString_lines (lines : List (List UInt8)) (v : List UInt8) :
    (packString lines v).flatMap (· ++ crlf) = lines.flatMap (· ++ crlf) ++ bulk v := by
  simp [packString, bulk]

theorem packValues_lines (tostring : α → List UInt8) (values : List α) (lines : List (List UInt8)) :
    (values.foldl (fun lines v => packValue tostring lines (some v)) lines).flatMap (· ++ crlf) =
      lines.flatMap (· ++ crlf) ++ (values.map tostring).flatMap bulk := by
  induction values generalizing lines with
  | nil => simp
  | cons v values ih =>
    rw [List.foldl_cons, ih, packValue, packString_lines, List.map_cons, List.flatMap_cons,
      List.append_assoc]

theorem composeMessage_eq (tostring : α → List UInt8) (cmd : List UInt8)
    (msg : Lua.Table α ⊕ Option α) :
    composeMessage tostring cmd msg =
      42 :: digits 10 (1 + counted msg) ++ crlf ++ (cmd :: texts tostring msg).flatMap bulk := by
  cases msg with
  | inl t =>
    simp only [composeMessage, intercalate_lines, packValues_lines, packString_lines]
    simp [texts, counted]
  | inr v =>
    cases v with
    | none =>
      simp only [composeMessage, intercalate_lines, packValue, packString_lines]
      simp [texts, counted]
    | some v =>
      simp only [composeMessage, intercalate_lines, packValue, packString_lines]
      simp [texts, counted]

theorem readNumber_digits (n : Nat) (rest : List UInt8) :
    readNumber (digits 10 n ++ crlf ++ rest) = some (n, rest) := by
  have digit : (digits 10 n ++ crlf ++ rest).head?.any (isDigit 10) = true := by
    obtain ⟨c, digits, is⟩ := List.exists_cons_of_ne_nil (digits_ne_nil 10 n)
    rw [is]
    exact isDigit_of_mem (by decide) (by decide) (is ▸ List.mem_cons_self)
  have back : scan 10 0 (digits 10 n ++ (crlf ++ rest)) = (n, crlf ++ rest) :=
    scan_digits_stop (by decide) (by decide) n (by simp [crlf, isDigit, Numeral.digit])
  rw [readNumber, if_pos digit, List.append_assoc, back]
  rfl

theorem readBulk_bulk (item rest : List UInt8) : readBulk (bulk item ++ rest) = some (item, rest) := by
  have front : bulk item ++ rest = 36 :: (digits 10 item.length ++ crlf ++ (item ++ (crlf ++ rest))) := by
    simp [bulk]
  rw [front, readBulk, readNumber_digits]
  change (if _ ∧ crlf <+: (item ++ (crlf ++ rest)).drop item.length then _ else _) = _
  rw [List.drop_left, if_pos ⟨by rw [List.length_append]; omega, List.prefix_append _ _⟩,
    List.take_left, ← List.drop_drop, List.drop_left]
  rfl

theorem readBulks_all (items got : List (List UInt8)) (n : Nat) :
    readBulks n (items.flatMap bulk) = some (got, []) ↔ n = items.length ∧ got = items := by
  induction items generalizing n got with
  | nil =>
    cases n with
    | zero => simp [readBulks, eq_comm]
    | succ n => simp [readBulks, readBulk]
  | cons item items ih =>
    cases n with
    | zero => simp [readBulks, bulk]
    | succ n =>
      rw [List.flatMap_cons, readBulks, readBulk_bulk]
      change (readBulks n (items.flatMap bulk)).map _ = _ ↔ _
      rw [Option.map_eq_some_iff, List.length_cons, Nat.add_right_cancel_iff]
      constructor
      · rintro ⟨⟨behind, left⟩, read, same⟩
        obtain ⟨rfl, rfl⟩ := Prod.mk.inj same
        obtain ⟨count, rfl⟩ := (ih behind n).mp read
        exact ⟨count, rfl⟩
      · rintro ⟨count, rfl⟩
        exact ⟨(items, []), (ih items n).mpr ⟨count, rfl⟩, rfl⟩

theorem counted_iff (tostring : α → List UInt8) (msg : Lua.Table α ⊕ Option α) :
    counted msg = (texts tostring msg).length ↔ Counted msg := by
  cases msg with
  | inl t => rw [counted, texts, List.length_map, Counted]
  | inr v => cases v <;> simp [counted, texts, Counted]

theorem readRequest_message (tostring : α → List UInt8) (cmd : List UInt8)
    (msg : Lua.Table α ⊕ Option α) (items : List (List UInt8)) :
    readRequest (composeMessage tostring cmd msg) = some (items, []) ↔
      Counted msg ∧ items = cmd :: texts tostring msg := by
  rw [composeMessage_eq, List.cons_append, List.cons_append, readRequest, readNumber_digits]
  change readBulks _ _ = _ ↔ _
  rw [readBulks_all, List.length_cons, Nat.add_comm, Nat.add_right_cancel_iff,
    counted_iff tostring msg]

theorem requests_iff (tostring : α → List UInt8) (table : α → Option (Lua.Table α)) (call : Call α) :
    (WellFormed (call.message tostring table) ↔ Counted (call.msg table)) ∧
      (Counted (call.msg table) → readRequest (call.message tostring table) =
        some (call.cmd :: texts tostring (call.msg table), [])) := by
  have reads := readRequest_message tostring call.cmd (call.msg table)
  constructor
  · constructor
    · rintro ⟨items, read⟩
      exact ((reads items).mp read).1
    · exact fun counted => ⟨_, (reads _).mpr ⟨counted, rfl⟩⟩
  · exact fun counted => (reads _).mpr ⟨counted, rfl⟩

theorem getint_construct {args : List (Option α)} {key : Nat} (positive : 1 ≤ key) :
    (construct args).getint key = args[key - 1]?.join := by
  by_cases none : args = []
  · subst none
    by_cases first : key = 1
    · subst first
      rfl
    · rw [Lua.Table.getint, if_neg (by simp [construct]; omega)]
      simp [construct]
  · unfold Lua.Table.getint construct
    rw [if_neg none]
    split_ifs with inside
    · rfl
    · rw [List.getElem?_eq_none (by simp only at inside; omega)]
      rfl

theorem construct_counted {args : List (Option α)}
    (last : ∀ i j : Nat, i < j → args[i]?.join = none → args[j]?.join = none) :
    Counted (.inl (construct args)) := by
  refine Lua.Table.getn_eq_ipairs fun key behind => ?_
  have hole := Lua.Table.getint_behind_ipairs (t := construct args)
  rw [getint_construct (Nat.succ_pos _), Nat.succ_sub_one] at hole
  rw [getint_construct (by omega)]
  rcases Nat.lt_or_ge (construct args).ipairs.length (key - 1) with less | here
  · exact last _ _ less hole
  · have same : key - 1 = (construct args).ipairs.length := by omega
    rw [same, hole]

theorem uncounted_of_hole {v : α} : ¬Counted (.inl (construct [none, some v])) := by
  have none_ : (construct [none, some v]).ipairs = [] := rfl
  have two : (construct [none, some v]).getn = 2 := by
    have third : (construct [none, some v]).getint 3 = none := rfl
    have search : (construct [none, some v]).binarySearch 2 3 = 2 := by
      rw [Lua.Table.binarySearch, if_neg (by decide)]
    change (construct [none, some v]).unboundLoop 2 3 (Nat.succ_pos 2) = 2
    rw [Lua.Table.unboundLoop, if_pos third, search]
  rw [Counted, two, none_]
  exact Nat.succ_ne_zero 1

end

-- `db:set(nil, "A")` and `db:exists(nil)`
theorem holes_miscounted :
    ¬WellFormed ((Call.command [115, 101, 116] [none, some [65]]).message id fun _ => none) ∧
      ¬WellFormed ((Call.exists_ none).message (id : List UInt8 → List UInt8) fun _ => none) := by
  constructor
  · rintro ⟨items, read⟩
    exact uncounted_of_hole ((readRequest_message id _ _ items).mp read).1
  · rintro ⟨items, read⟩
    exact ((readRequest_message id _ _ items).mp read).1 rfl

example : (Call.exists_ (some [65])).message id (fun _ => none) =
    [42, 50, 13, 10, 36, 54, 13, 10, 69, 88, 73, 83, 84, 83, 13, 10, 36, 49, 13, 10, 65, 13, 10] := by
  decide

end Pskynet.Redis
