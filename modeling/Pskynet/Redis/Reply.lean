import Pskynet.Lua.Number
import Pskynet.Redis.Request
import Pskynet.Shared.Search
import Pskynet.Shared.Slots

set_option autoImplicit false

namespace Pskynet.Redis

open Numeral Lua

abbrev Fd := List UInt8

-- A table is its entries; `nil` is none.
inductive Value where
  | string (bytes : List UInt8)
  | integer (n : Int)
  | table (entries : List (Nat × Value))
  deriving Repr

abbrev Entries := List (Nat × Value)

def readline (fd : Fd) : Option (List UInt8 × Fd) :=
  (Search.find crlf fd).map fun i => (fd.take i, fd.drop (i + 2))

def read (n : Int) (fd : Fd) : Option (List UInt8 × Fd) :=
  if 0 ≤ n ∧ n ≤ fd.length then some (fd.take n.toNat, fd.drop n.toNat) else none

def store (bulk : Entries) (i : Nat) : Option Value → Entries
  | none => bulk
  | some v => bulk ++ [(i, v)]

-- The flag that is returned, the value, and what is left. Where a response does not come to its
-- end, or raises an error, there is none.
abbrev Response := Option (Bool × Option Value × Fd)

-- The loop over the elements that are left, from the `i`-th on
def readElements (readResponse : Fd → Response) :
    Nat → Nat → Bool → Entries → Fd → Option (Bool × Entries × Fd)
  | 0, _, noerr, bulk, fd => some (noerr, bulk, fd)
  | n + 1, i, noerr, bulk, fd =>
    readResponse fd >>= fun (ok, v, fd) =>
      if ok then readElements readResponse n (i + 1) noerr (store bulk i v) fd
      else readElements readResponse n (i + 1) false bulk fd

variable (build : Build)

def redcmd (readResponse : Fd → Response) (firstchar : UInt8) (data : List UInt8) (fd : Fd) :
    Response :=
  if firstchar = 36 then
    tonumber build data >>= fun bytes =>
      if bytes < 0 then some (true, none, fd)
      else
        (read (build.integer (bytes + 2)) fd).map fun (firstline, fd) =>
          (true, some (.string (firstline.take (firstline.length - 2))), fd)
  else if firstchar = 43 then some (true, some (.string data), fd)
  else if firstchar = 45 then some (false, some (.string data), fd)
  else if firstchar = 58 then
    (tonumber build data).map fun n => (true, some (.integer n), fd)
  else if firstchar = 42 then
    tonumber build data >>= fun n =>
      if n < 0 then some (true, none, fd)
      else
        (readElements readResponse n.toNat 1 true [] fd).map fun (noerr, bulk, fd) =>
          (noerr, some (.table bulk), fd)
  else none

-- Lua's stack has room for so many calls in one another; the next one is an error.
def readResponse : Nat → Fd → Response
  | 0, _ => none
  | calls + 1, fd =>
    readline fd >>= fun
      | ([], _) => none
      | (firstchar :: data, fd) => redcmd build (readResponse calls) firstchar data fd

structure Line where
  bytes : List UInt8
  unbroken : ¬crlf <:+: bytes

-- The replies whose integers, lengths and counts are integers of Lua
inductive Reply where
  | status (line : Line)
  | error (line : Line)
  | integer (n : Int) (low : -build.limit ≤ n) (high : n < build.limit)
  | bulk (bytes : List UInt8) (fits : bytes.length + 2 < build.limit)
  | nullBulk
  | array (count : Nat) (few : count < build.limit) (elements : Fin count → Reply)
  | nullArray

namespace Reply

variable {build : Build}

def encode : Reply build → List UInt8
  | status line => 43 :: line.bytes ++ crlf
  | error line => 45 :: line.bytes ++ crlf
  | integer n _ _ => 58 :: intText (Int64.ofInt n) ++ crlf
  | bulk bytes _ => 36 :: digits 10 bytes.length ++ crlf ++ (bytes ++ crlf)
  | nullBulk => [36, 45, 49] ++ crlf
  | array count _ elements =>
    42 :: digits 10 count ++ crlf ++ (List.ofFn fun i => (elements i).encode).flatten
  | nullArray => [42, 45, 49] ++ crlf

def depth : Reply build → Nat
  | array _ _ elements => Slots.most (List.ofFn fun i => (elements i).depth) + 1
  | _ => 1

def ok : Reply build → Bool
  | error _ => false
  | array _ _ elements => (List.ofFn fun i => (elements i).ok).all id
  | _ => true

inductive HasError : Reply build → Prop where
  | error (line : Line) : HasError (.error line)
  | array (count : Nat) (few : count < build.limit) (elements : Fin count → Reply build)
      (i : Fin count)
      (inner : HasError (elements i)) : HasError (.array count few elements)

def entries : Nat → List (Bool × Option Value) → Entries
  | _, [] => []
  | i, (ok, v) :: rest => (if ok then v.toList.map fun v => (i, v) else []) ++ entries (i + 1) rest

def value : Reply build → Option Value
  | status line => some (.string line.bytes)
  | error line => some (.string line.bytes)
  | integer n _ _ => some (.integer n)
  | bulk bytes _ => some (.string bytes)
  | array _ _ elements =>
    some (.table (entries 1 (List.ofFn fun i => ((elements i).ok, (elements i).value))))
  | nullBulk | nullArray => none

end Reply

variable {build : Build}

theorem Reply.ok_eq_false_iff (reply : Reply build) : reply.ok = false ↔ reply.HasError := by
  induction reply with
  | error line => exact iff_of_true rfl (.error line)
  | array count few elements ih =>
    rw [ok, List.all_eq_false]
    constructor
    · rintro ⟨flag, inside, no⟩
      obtain ⟨i, rfl⟩ := List.mem_ofFn.mp inside
      exact .array count few elements i ((ih i).mp (Bool.not_eq_true _ ▸ no))
    · intro has
      cases has with
      | array _ _ _ i inner =>
        exact ⟨_, List.mem_ofFn.mpr ⟨i, rfl⟩, by rw [(ih i).mpr inner]; exact Bool.false_ne_true⟩
  | _ => exact iff_of_false Bool.false_ne_true.symm nofun

theorem unbroken_cons {c : UInt8} {bytes : List UInt8} (plain : c ≠ 13)
    (unbroken : ¬crlf <:+: bytes) : ¬crlf <:+: c :: bytes := by
  intro inside
  rcases List.infix_cons_iff.mp inside with first | later
  · exact plain (List.cons_prefix_cons.mp first).1.symm
  · exact unbroken later

theorem digit_ne_return {c : UInt8} (is : isDigit 10 c = true) : c ≠ 13 := by
  rintro rfl
  exact Bool.false_ne_true is

theorem unbroken_digits (n : Nat) : ¬crlf <:+: digits 10 n :=
  Search.not_infix_of_forall fun _ inside =>
    digit_ne_return (isDigit_of_mem (by decide) (by decide) inside)

theorem unbroken_intText (n : Int64) : ¬crlf <:+: intText n := by
  unfold intText
  split_ifs
  · exact unbroken_cons (by decide) (unbroken_digits _)
  · exact unbroken_digits _

theorem readline_line {bytes : List UInt8} (unbroken : ¬crlf <:+: bytes) (rest : Fd) :
    readline (bytes ++ crlf ++ rest) = some (bytes, rest) := by
  have filled : crlf ≠ [] := List.cons_ne_nil 13 [10]
  have found := (Search.find_some_iff filled _ _).mpr
    (Search.firstAt_append bytes rest (Search.not_infix_concat (by decide) unbroken))
  have behind : (bytes ++ crlf ++ rest).drop (bytes.length + 2) = rest := by
    rw [List.drop_left' (by rw [List.length_append]; rfl)]
  rw [readline, found, Option.map_some, behind, List.append_assoc, List.take_left]

theorem readResponse_line {mark : UInt8} {data : List UInt8} (plain : mark ≠ 13)
    (unbroken : ¬crlf <:+: data) (calls : Nat) (rest : Fd) :
    readResponse build (calls + 1) (mark :: data ++ crlf ++ rest) =
      redcmd build (readResponse build calls) mark data rest := by
  rw [readResponse, readline_line (unbroken_cons plain unbroken)]
  rfl

theorem read_front {bytes : List UInt8} {n : Nat} (length : bytes.length = n) (rest : Fd) :
    read n (bytes ++ rest) = some (bytes, rest) := by
  have inside : (0 : Int) ≤ n ∧ (n : Int) ≤ (bytes ++ rest).length := by
    rw [List.length_append]
    omega
  rw [read, if_pos inside, Int.toNat_natCast, List.take_left' length, List.drop_left' length]

theorem readElements_all {readResponse : Fd → Response}
    {items : List (List UInt8 × Bool × Option Value)}
    (reads : ∀ item ∈ items, ∀ rest,
      readResponse (item.1 ++ rest) = some (item.2.1, item.2.2, rest))
    (i : Nat) (noerr : Bool) (bulk : Entries) (rest : Fd) :
    readElements readResponse items.length i noerr bulk ((items.map Prod.fst).flatten ++ rest) =
      some (noerr && (items.map fun item => item.2.1).all id,
        bulk ++ Reply.entries i (items.map Prod.snd), rest) := by
  induction items generalizing i noerr bulk with
  | nil =>
    rw [List.map_nil, List.map_nil, List.map_nil, List.all_nil, Bool.and_true, Reply.entries,
      List.append_nil]
    rfl
  | cons item items ih =>
    obtain ⟨bytes, ok, v⟩ := item
    rw [List.forall_mem_cons] at reads
    rw [List.map_cons, List.flatten_cons, List.append_assoc, List.length_cons, readElements,
      reads.1]
    change (if ok then _ else _) = _
    cases ok with
    | true =>
      rw [if_pos rfl, ih reads.2]
      cases v with
      | none => simp [store, Reply.entries]
      | some v => simp [store, Reply.entries]
    | false =>
      rw [if_neg Bool.false_ne_true, ih reads.2]
      simp [Reply.entries]

theorem exists_calls {reply : Reply build} {calls : Nat} (enough : reply.depth ≤ calls) :
    ∃ within, calls = within + 1 := by
  refine ⟨calls - 1, ?_⟩
  have positive : 0 < reply.depth := by cases reply <;> simp [Reply.depth]
  omega

theorem redcmd_bulk (readResponse : Fd → Response) {bytes : List UInt8}
    (fits : bytes.length + 2 < build.limit) (rest : Fd) :
    redcmd build readResponse 36 (digits 10 bytes.length) (bytes ++ crlf ++ rest) =
      some (true, some (.string bytes), rest) := by
  have length : (bytes ++ crlf).length = bytes.length + 2 := List.length_append
  have size : build.integer (bytes.length + 2) = (bytes.length + 2 : Nat) := by
    rw [Build.integer_eq (by omega) (by exact_mod_cast fits)]
    rfl
  rw [redcmd, if_pos rfl, tonumber_digits (by omega), Option.bind_eq_bind, Option.bind_some,
    if_neg (by omega), size, read_front length]
  change some (true, some (Value.string ((bytes ++ crlf).take ((bytes ++ crlf).length - 2))), rest) = _
  rw [length, Nat.add_sub_cancel, List.take_left]

theorem redcmd_null (readResponse : Fd → Response) {mark : UInt8} (is : mark = 36 ∨ mark = 42)
    (rest : Fd) : redcmd build readResponse mark [45, 49] rest = some (true, none, rest) := by
  have number : tonumber build [45, 49] = some (-1) := by cases build <;> decide
  rcases is with rfl | rfl
  · rw [redcmd, if_pos rfl, number]
    rfl
  · simp only [redcmd, number]
    rfl

theorem redcmd_array (readResponse : Fd → Response) {count : Nat} (few : count < build.limit)
    (elements : Fin count → Reply build)
    (reads : ∀ i rest, readResponse ((elements i).encode ++ rest) =
      some ((elements i).ok, (elements i).value, rest)) (rest : Fd) :
    redcmd build readResponse 42 (digits 10 count)
        ((List.ofFn fun i => (elements i).encode).flatten ++ rest) =
      some ((Reply.array count few elements).ok, (Reply.array count few elements).value, rest) := by
  have all := readElements_all (fun item inside rest => by
    obtain ⟨i, rfl⟩ := List.mem_ofFn.mp inside
    exact reads i rest :
      ∀ item ∈ List.ofFn fun i => ((elements i).encode, (elements i).ok, (elements i).value),
        ∀ rest, readResponse (item.1 ++ rest) = some (item.2.1, item.2.2, rest)) 1 true [] rest
  rw [List.length_ofFn, List.map_ofFn, List.map_ofFn, List.map_ofFn] at all
  rw [redcmd, if_neg (by decide), if_neg (by decide), if_neg (by decide), if_neg (by decide),
    if_pos rfl, tonumber_digits few, Option.bind_eq_bind, Option.bind_some, if_neg (by omega),
    Int.toNat_natCast]
  refine (congrArg (Option.map _) all).trans ?_
  rw [Bool.true_and, List.nil_append]
  rfl

theorem readResponse_exact (reply : Reply build) (calls : Nat) (rest : Fd)
    (enough : reply.depth ≤ calls) :
    readResponse build calls (reply.encode ++ rest) = some (reply.ok, reply.value, rest) := by
  induction reply generalizing calls rest with
  | status line =>
    obtain ⟨within, rfl⟩ := exists_calls enough
    rw [Reply.encode, readResponse_line (by decide) line.unbroken]
    rfl
  | error line =>
    obtain ⟨within, rfl⟩ := exists_calls enough
    rw [Reply.encode, readResponse_line (by decide) line.unbroken]
    rfl
  | integer n low high =>
    obtain ⟨within, rfl⟩ := exists_calls enough
    rw [Reply.encode, readResponse_line (by decide) (unbroken_intText _)]
    change (tonumber build (intText (Int64.ofInt n))).map _ = _
    rw [tonumber_intText low high]
    rfl
  | bulk bytes fits =>
    obtain ⟨within, rfl⟩ := exists_calls enough
    rw [Reply.encode, List.append_assoc _ _ rest,
      readResponse_line (by decide) (unbroken_digits _), redcmd_bulk _ fits]
    rfl
  | nullBulk =>
    obtain ⟨within, rfl⟩ := exists_calls enough
    exact (readResponse_line (by decide) (Search.not_infix_of_forall (by simp)) within rest).trans
      (redcmd_null _ (.inl rfl) rest)
  | array count few elements ih =>
    obtain ⟨within, rfl⟩ := exists_calls enough
    rw [Reply.encode, List.append_assoc _ _ rest,
      readResponse_line (by decide) (unbroken_digits _)]
    refine redcmd_array _ few elements (fun i rest => ih i within rest ?_) rest
    rw [Reply.depth, Nat.add_le_add_iff_right, Slots.most_le_iff] at enough
    exact enough _ (List.mem_ofFn.mpr ⟨i, rfl⟩)
  | nullArray =>
    obtain ⟨within, rfl⟩ := exists_calls enough
    exact (readResponse_line (by decide) (Search.not_infix_of_forall (by simp)) within rest).trans
      (redcmd_null _ (.inr rfl) rest)

theorem readResponse_encode (reply : Reply build) (calls : Nat) (rest : Fd)
    (enough : reply.depth ≤ calls) :
    readResponse build calls (reply.encode ++ rest) = some (reply.ok, reply.value, rest) ∧
      (reply.ok = false ↔ reply.HasError) :=
  ⟨readResponse_exact reply calls rest enough, reply.ok_eq_false_iff⟩

def sampleReply : Reply .lua32 :=
  .array 2 (by decide) fun
    | 0 => .integer (-7) (by decide) (by decide)
    | 1 => .array 2 (by decide) fun
      | 0 => .error ⟨[69], by decide⟩
      | 1 => .nullBulk

theorem sample_read :
    readResponse .lua32 3 (sampleReply.encode ++ [43]) =
        some (false, some (.table [(1, .integer (-7))]), [43]) ∧
      (sampleReply.ok = false ↔ sampleReply.HasError) :=
  readResponse_encode sampleReply 3 [43] (by decide)

theorem wide_integer_wraps :
    readResponse .lua32 1 (58 :: (digits 10 4294967296 ++ crlf)) =
      some (true, some (.integer 0), []) := by
  rfl

end Pskynet.Redis
