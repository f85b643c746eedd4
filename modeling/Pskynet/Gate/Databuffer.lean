import Pskynet.Shared.Words

set_option autoImplicit false

namespace Pskynet.Gate

inductive HeaderStyle where
  | S
  | L
  deriving DecidableEq, Repr

def HeaderStyle.size : HeaderStyle → Nat
  | .S => 2
  | .L => 4

theorem HeaderStyle.size_pos (style : HeaderStyle) : 0 < style.size := by
  cases style <;> decide

theorem HeaderStyle.size_le (style : HeaderStyle) : style.size ≤ 4 := by
  cases style <;> decide

-- What one read of a socket brings: libuv asks `alloc_cb` for 64 KiB, and `read_cb` passes on
-- nothing when nothing was read.
structure Chunk where
  bytes : List UInt8
  some_ : bytes ≠ []
  fits : bytes.length ≤ 65536
  deriving DecidableEq, Repr

-- `struct databuffer`, with the buffers of its messages in the order of the list
structure Databuffer where
  header : Int32
  offset : Nat
  size : Int32
  messages : List (List UInt8)
  deriving DecidableEq, Repr

def Databuffer.zero : Databuffer := { header := 0, offset := 0, size := 0, messages := [] }

-- The loop of `databuffer_read`. There is no result where `head` is `NULL`.
def readLoop : List (List UInt8) → Nat → Nat → Option (List UInt8 × Nat × List (List UInt8))
  | [], _, _ => none
  | current :: later, offset, sz =>
      let bsz := current.length - offset
      if sz < bsz then some ((current.drop offset).take sz, offset + sz, current :: later)
      else if bsz = sz then some ((current.drop offset).take sz, 0, later)
      else
        (readLoop later 0 (sz - bsz)).map fun (bytes, stopped, messages) =>
          (current.drop offset ++ bytes, stopped, messages)

def databufferRead (db : Databuffer) (sz : Nat) : Option (List UInt8 × Databuffer) :=
  if db.size < Int32.ofNat sz then none
  else
    (readLoop db.messages db.offset sz).map fun (bytes, offset, messages) =>
      (bytes, { db with size := db.size - Int32.ofNat sz, offset := offset, messages := messages })

def databufferPush (db : Databuffer) (data : List UInt8) : Databuffer :=
  { db with size := db.size + Int32.ofNat data.length, messages := db.messages ++ [data] }

def declaredSize (style : HeaderStyle) (plen : List UInt8) : UInt32 :=
  let byte (i : Nat) := (plen.getD i 0).toUInt32
  match style with
  | .S => byte 0 <<< 8 ||| byte 1
  | .L => byte 0 <<< 24 ||| byte 1 <<< 16 ||| byte 2 <<< 8 ||| byte 3

def ready (db : Databuffer) : Int32 := if db.size < db.header then -1 else db.header

def databufferReadheader (db : Databuffer) (style : HeaderStyle) : Option (Int32 × Databuffer) :=
  if db.header = 0 then
    if db.size < Int32.ofNat style.size then some (-1, db)
    else
      (databufferRead db style.size).map fun (plen, db) =>
        let db := { db with header := (declaredSize style plen).toInt32 }
        (ready db, db)
  else some (ready db, db)

def databufferReset (db : Databuffer) : Databuffer := { db with header := 0 }

def databufferClear (_ : Databuffer) : Databuffer := .zero

def Databuffer.unread (db : Databuffer) : List UInt8 := db.messages.flatten.drop db.offset

@[simp] theorem unread_reset (db : Databuffer) : (databufferReset db).unread = db.unread := rfl

def Placed (offset : Nat) : List (List UInt8) → Prop
  | [] => offset = 0
  | current :: later => offset < current.length ∧ ∀ message ∈ later, message ≠ []

theorem Placed.start {messages : List (List UInt8)}
    (filled : ∀ message ∈ messages, message ≠ []) : Placed 0 messages := by
  cases messages with
  | nil => rfl
  | cons current later =>
      have first := filled current (by simp)
      exact ⟨List.length_pos_iff.mpr first, fun message inside => filled message (by simp [inside])⟩

theorem Placed.le {offset : Nat} {messages : List (List UInt8)} (placed : Placed offset messages) :
    offset ≤ messages.flatten.length := by
  cases messages with
  | nil =>
      obtain rfl : offset = 0 := placed
      simp
  | cons current later =>
      have inside := placed.1
      rw [List.flatten_cons, List.length_append]
      omega

theorem readLoop_eq (messages : List (List UInt8)) (offset sz : Nat) (pos : 0 < sz)
    (placed : Placed offset messages) (enough : sz ≤ (messages.flatten.drop offset).length) :
    ∃ offset' messages', readLoop messages offset sz =
        some ((messages.flatten.drop offset).take sz, offset', messages') ∧
      messages'.flatten.drop offset' = (messages.flatten.drop offset).drop sz ∧
      Placed offset' messages' := by
  induction messages generalizing offset sz with
  | nil =>
      simp only [List.flatten_nil, List.drop_nil, List.length_nil] at enough
      omega
  | cons current later ih =>
      obtain ⟨inside, filled⟩ := placed
      have front : (current :: later).flatten.drop offset = current.drop offset ++ later.flatten := by
        rw [List.flatten_cons, List.drop_append_of_le_length inside.le]
      have length : (current.drop offset).length = current.length - offset := List.length_drop
      rw [front] at enough ⊢
      unfold readLoop
      by_cases less : sz < current.length - offset
      · refine ⟨offset + sz, current :: later, ?_, ?_, by omega, filled⟩
        · rw [List.take_append_of_le_length (by omega)]
          exact if_pos less
        · rw [List.drop_append_of_le_length (by omega), List.drop_drop, List.flatten_cons,
            List.drop_append_of_le_length (by omega)]
      · by_cases whole : current.length - offset = sz
        · refine ⟨0, later, ?_, ?_, Placed.start filled⟩
          · rw [List.take_append_of_le_length (by omega)]
            simp only [if_neg less, if_pos whole]
          · rw [← whole, ← length, List.drop_left, List.drop_zero]
        · rw [List.length_append] at enough
          obtain ⟨offset', messages', ran, left, placed⟩ := ih 0 (sz - (current.length - offset))
            (by omega) (Placed.start filled) (by rw [List.drop_zero]; omega)
          rw [List.drop_zero] at ran left
          refine ⟨offset', messages', ?_, ?_, placed⟩
          · simp only [if_neg less, if_neg whole, ran, Option.map_some]
            rw [List.take_append, length, List.take_of_length_le (by omega : _ ≤ sz)]
          · rw [left, List.drop_append, length, List.drop_eq_nil_of_le (by omega : _ ≤ sz),
            List.nil_append]

-- `size` is the number of the unread bytes, as an `int`.
structure Sized (db : Databuffer) : Prop where
  placed : Placed db.offset db.messages
  size : db.size = Int32.ofNat db.unread.length

structure Counted (db : Databuffer) : Prop extends Sized db where
  small : db.unread.length < 2 ^ 31

theorem zero_counted : Counted .zero :=
  ⟨⟨rfl, rfl⟩, by decide⟩

theorem counter_lt_iff (n k : Nat) (small : n < 2 ^ 31) (other : k < 2 ^ 31) :
    Int32.ofNat n < Int32.ofNat k ↔ n < k := by
  rw [Int32.lt_iff_toInt_lt, Int32.toInt_ofNat_of_lt small, Int32.toInt_ofNat_of_lt other]
  omega

theorem Counted.size_lt_iff {db : Databuffer} (counted : Counted db) (n : Nat) (small : n < 2 ^ 31) :
    db.size < Int32.ofNat n ↔ db.unread.length < n := by
  rw [counted.size]
  exact counter_lt_iff _ _ counted.small small

theorem databufferRead_eq (db : Databuffer) (sz : Nat) (counted : Counted db) (pos : 0 < sz)
    (enough : sz ≤ db.unread.length) :
    ∃ after, databufferRead db sz = some (db.unread.take sz, after) ∧
      after.unread = db.unread.drop sz ∧ Counted after ∧ after.header = db.header := by
  have small := counted.small
  obtain ⟨offset, messages, ran, left, placed⟩ :=
    readLoop_eq db.messages db.offset sz pos counted.placed enough
  have length : (db.unread.drop sz).length = db.unread.length - sz := List.length_drop
  refine ⟨{ db with size := db.size - Int32.ofNat sz, offset := offset, messages := messages },
    ?_, left, ⟨⟨placed, ?_⟩, ?_⟩, rfl⟩
  · unfold databufferRead
    rw [if_neg (by rw [counted.size_lt_iff sz (by omega)]; omega), ran]
    rfl
  · show db.size - Int32.ofNat sz = Int32.ofNat (messages.flatten.drop offset).length
    rw [left, counted.size]
    show _ = Int32.ofNat (db.unread.drop sz).length
    rw [length, Int32.ofNat_sub _ _ enough]
  · show (messages.flatten.drop offset).length < 2 ^ 31
    rw [left]
    show (db.unread.drop sz).length < 2 ^ 31
    omega

theorem unread_push (db : Databuffer) (data : List UInt8)
    (placed : Placed db.offset db.messages) :
    (databufferPush db data).unread = db.unread ++ data := by
  show (db.messages ++ [data]).flatten.drop db.offset = db.messages.flatten.drop db.offset ++ data
  rw [List.flatten_append, List.drop_append_of_le_length placed.le, List.flatten_singleton]

theorem placed_push (db : Databuffer) (data : List UInt8) (some_ : data ≠ [])
    (placed : Placed db.offset db.messages) :
    Placed (databufferPush db data).offset (databufferPush db data).messages := by
  show Placed db.offset (db.messages ++ [data])
  cases same : db.messages with
  | nil =>
      rw [same] at placed
      have start : db.offset = 0 := placed
      rw [start]
      exact Placed.start (by simpa using some_)
  | cons current later =>
      rw [same] at placed
      refine ⟨placed.1, fun message inside => ?_⟩
      obtain old | rfl : message ∈ later ∨ message = data := by simpa using inside
      · exact placed.2 message old
      · exact some_

theorem sized_push (db : Databuffer) (data : List UInt8) (some_ : data ≠ []) (sized : Sized db) :
    Sized (databufferPush db data) := by
  refine ⟨placed_push db data some_ sized.placed, ?_⟩
  show db.size + Int32.ofNat data.length = _
  rw [unread_push db data sized.placed, List.length_append, Int32.ofNat_add, sized.size]

theorem counted_push (db : Databuffer) (data : List UInt8) (some_ : data ≠ []) (counted : Counted db)
    (small : db.unread.length + data.length < 2 ^ 31) : Counted (databufferPush db data) := by
  refine ⟨sized_push db data some_ counted.toSized, ?_⟩
  rw [unread_push db data counted.placed, List.length_append]
  exact small

end Pskynet.Gate
