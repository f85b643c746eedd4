import Pskynet.Gate.Service
import Pskynet.Shared.Framing

set_option autoImplicit false

namespace Pskynet.Gate

theorem toInt32_eq (v : UInt32) : v.toInt32 = Int32.ofNat v.toNat := by
  rw [← UInt32.toInt32_ofNat', UInt32.ofNat_toNat]

theorem toInt_toInt32 (v : UInt32) (small : v.toNat < 2 ^ 31) : v.toInt32.toInt = v.toNat := by
  rw [toInt32_eq, Int32.toInt_ofNat_of_lt small]

theorem toInt32_neg (v : UInt32) (large : 2 ^ 31 ≤ v.toNat) : v.toInt32 < 0 := by
  have bound := v.toNat_lt
  have value : v.toInt32.toInt = v.toBitVec.toInt := rfl
  have natural : v.toBitVec.toNat = v.toNat := rfl
  rw [Int32.lt_iff_toInt_lt, value, BitVec.toInt_eq_toNat_cond]
  simp only [natural, Int32.toInt_zero]
  omega

def declared (style : HeaderStyle) (bytes : List UInt8) : Nat :=
  (declaredSize style (bytes.take style.size)).toNat

theorem declared_append (style : HeaderStyle) (head rest : List UInt8)
    (length : head.length = style.size) : declared style (head ++ rest) = declared style head := by
  rw [declared, declared, ← length, List.take_left, List.take_length]

theorem declaredSize_eq (style : HeaderStyle) (head : List UInt8)
    (length : head.length = style.size) : (declaredSize style head).toNat = declared style head := by
  rw [declared, ← length, List.take_length]

def format (style : HeaderStyle) : Framing.Format where
  header := style.size
  size head :=
    if head.length = style.size ∧ declared style head < 2 ^ 24 then some (declared style head)
    else none
  pos := style.size_pos

def Oversized (style : HeaderStyle) (bytes : List UInt8) : Prop :=
  style.size ≤ bytes.length ∧ 2 ^ 24 ≤ declared style bytes

instance (style : HeaderStyle) (bytes : List UInt8) : Decidable (Oversized style bytes) :=
  inferInstanceAs (Decidable (_ ∧ _))

theorem next_short (style : HeaderStyle) (bytes : List UInt8) (short : bytes.length < style.size) :
    Framing.next (format style) bytes = none := by
  refine Framing.next_of_refused _ _ (if_neg fun both => ?_)
  have length : (bytes.take style.size).length = style.size := both.1
  rw [List.length_take] at length
  omega

section
variable {style : HeaderStyle} {head : List UInt8} (body : List UInt8)
  (length : head.length = style.size)
include length

theorem take_header : (head ++ body).take (format style).header = head := by
  show (head ++ body).take style.size = head
  rw [← length, List.take_left]

theorem next_oversized (large : 2 ^ 24 ≤ declared style head) :
    Framing.next (format style) (head ++ body) = none := by
  refine Framing.next_of_refused _ _ ?_
  rw [take_header body length]
  exact if_neg (by omega)

theorem next_part (part : body.length < declared style head) :
    Framing.next (format style) (head ++ body) = none := by
  by_cases small : declared style head < 2 ^ 24
  · refine Framing.next_of_part _ _ (declared style head) ?_ ?_
    · rw [take_header body length]
      exact if_pos ⟨length, small⟩
    · show _ < style.size + _
      rw [List.length_append]
      omega
  · exact next_oversized body length (by omega)

theorem next_whole (small : declared style head < 2 ^ 24)
    (whole : declared style head ≤ body.length) :
    Framing.next (format style) (head ++ body) =
      some (body.take (declared style head), body.drop (declared style head)) := by
  have given : (format style).size head = some (declared style head) := if_pos ⟨length, small⟩
  have front : (body.take (declared style head)).length = declared style head := by
    rw [List.length_take]
    omega
  have found := Framing.next_packet (format style) head (body.take (declared style head))
    (body.drop (declared style head)) length (by rw [given, front])
  rwa [List.append_assoc, List.take_append_drop] at found

end

inductive Rests (style : HeaderStyle) (db : Databuffer) : List UInt8 → Prop where
  | header (counted : Counted db) (none_ : db.header = 0) (short : db.unread.length < style.size) :
      Rests style db db.unread
  | body (counted : Counted db) (head : List UInt8) (length : head.length = style.size)
      (header : db.header = Int32.ofNat (declared style head)) (small : declared style head < 2 ^ 24)
      (short : db.unread.length < declared style head) : Rests style db (head ++ db.unread)
  | oversized (sized : Sized db) (head : List UInt8) (length : head.length = style.size)
      (header : db.header = (declaredSize style head).toInt32)
      (large : 2 ^ 24 ≤ declared style head) : Rests style db (head ++ db.unread)

theorem Rests.sized {style : HeaderStyle} {db : Databuffer} {bytes : List UInt8}
    (rests : Rests style db bytes) : Sized db := by
  cases rests with
  | header counted _ _ => exact counted.toSized
  | body counted _ _ _ _ _ => exact counted.toSized
  | oversized sized _ _ _ _ => exact sized

theorem Rests.part {style : HeaderStyle} {db : Databuffer} {bytes : List UInt8}
    (rests : Rests style db bytes) : Framing.next (format style) bytes = none := by
  cases rests with
  | header _ _ short => exact next_short style _ short
  | body _ head length _ _ short => exact next_part _ length short
  | oversized _ head length _ large => exact next_oversized _ length large

theorem zero_rests (style : HeaderStyle) : Rests style .zero [] :=
  .header zero_counted rfl style.size_pos

def filled (bodies : List (List UInt8)) : List (List UInt8) := bodies.filter (· ≠ [])

@[simp] theorem filled_nil : filled [] = [] := rfl

@[simp] theorem filled_empty (bodies : List (List UInt8)) : filled ([] :: bodies) = filled bodies :=
  rfl

theorem filled_cons (body : List UInt8) (bodies : List (List UInt8)) (some_ : body ≠ []) :
    filled (body :: bodies) = body :: filled bodies := by
  simp [filled, some_]

theorem filled_append (first second : List (List UInt8)) :
    filled (first ++ second) = filled first ++ filled second := by
  simp [filled]

def sends (g : Gate) (c : Connection) (bodies : List (List UInt8)) : List Output :=
  match receiver g c with
  | some send => bodies.map fun body => .send (send body)
  | none => []

-- How a dispatch ends that has the bytes `rest` left.
inductive Ended (style : HeaderStyle) (id : Int) (rest : List UInt8) (db : Databuffer) :
    List Output → Prop where
  | waiting (rests : Rests style db rest) : Ended style id rest db []
  | closed (cleared : db = .zero) (large : Oversized style rest)
      (whole : style.size + declared style rest ≤ rest.length) :
      Ended style id rest db (tooLarge id)

def Received (g : Gate) (c : Connection) (bytes : List UInt8) : Prop :=
  receiver g c ≠ none ∨ filled (Framing.split (format g.style) bytes).1 = []

structure Splits (g : Gate) (c : Connection) (id : Int) (bytes : List UInt8) (d : Dispatched) :
    Prop where
  handled : d.handled =
    (filled (Framing.split (format g.style) bytes).1).map fun body => (body.length, body.length)
  ends : ∃ ends, Ended g.style id (Framing.split (format g.style) bytes).2 d.connection.buffer ends ∧
    d.outputs = sends g c (filled (Framing.split (format g.style) bytes).1) ++ ends

structure Outcome (g : Gate) (c : Connection) (id : Int) (bytes : List UInt8) (d : Dispatched) :
    Prop where
  others : d.connection = { c with buffer := d.connection.buffer }
  rests : ∃ left, Rests g.style d.connection.buffer left
  splits : Received g c bytes → Splits g c id bytes d
  stays : ¬Received g c bytes → ∃ n, 0 < n ∧ (n, 0) ∈ d.handled

variable {g : Gate} {c : Connection} {id : Int} {bytes : List UInt8} {db : Databuffer}
  {d : Dispatched}

theorem received_of_part (part : Framing.next (format g.style) bytes = none) :
    Received g c bytes := by
  right
  rw [Framing.split_none _ _ part]
  rfl

theorem outcome_of_part (part : Framing.next (format g.style) bytes = none) {ends : List Output}
    (rests : ∃ left, Rests g.style db left) (ended : Ended g.style id bytes db ends) :
    Outcome g c id bytes
      { connection := { c with buffer := db }, outputs := ends, handled := [] } where
  others := rfl
  rests := rests
  splits _ := by
    have split := Framing.split_none _ _ part
    refine ⟨by rw [split]; rfl, ends, by rw [split]; exact ended, ?_⟩
    rw [split, filled_nil, sends]
    split <;> rfl
  stays alone := absurd (received_of_part part) alone

theorem outcome_waiting (rests : Rests g.style db bytes) :
    Outcome g c id bytes
      { connection := { c with buffer := db }, outputs := [], handled := [] } :=
  outcome_of_part rests.part ⟨_, rests⟩ (.waiting rests)

theorem Outcome.drop {rest : List UInt8}
    (found : Framing.next (format g.style) bytes = some ([], rest)) (later : Outcome g c id rest d) :
    Outcome g c id bytes d := by
  have split := Framing.split_some _ _ _ _ found
  have same : Received g c bytes ↔ Received g c rest := by
    unfold Received
    rw [split, filled_empty]
  refine ⟨later.others, later.rests, fun received => ?_, fun alone => later.stays (same.not.mp alone)⟩
  obtain ⟨handled, ends⟩ := later.splits (same.mp received)
  constructor
  · rw [split, filled_empty]
    exact handled
  · rw [split, filled_empty]
    exact ends

theorem Outcome.pass {body rest : List UInt8} {send : List UInt8 → Send} (some_ : body ≠ [])
    (given : receiver g c = some send)
    (found : Framing.next (format g.style) bytes = some (body, rest))
    (later : Outcome g c id rest d) :
    Outcome g c id bytes (d.behind [.send (send body)] [(body.length, body.length)]) := by
  have split := Framing.split_some _ _ _ _ found
  have received (stream : List UInt8) : Received g c stream := by
    left
    rw [given]
    exact Option.some_ne_none send
  refine ⟨later.others, later.rests, fun _ => ?_, fun alone => absurd (received bytes) alone⟩
  obtain ⟨handled, ends, ended, outputs⟩ := later.splits (received rest)
  constructor
  · rw [split, filled_cons _ _ some_, List.map_cons]
    show [(body.length, body.length)] ++ d.handled = _
    rw [handled]
    rfl
  · refine ⟨ends, by rw [split]; exact ended, ?_⟩
    rw [split, filled_cons _ _ some_]
    show [.send (send body)] ++ d.outputs = _
    rw [outputs, sends, sends, given]
    rfl

theorem Outcome.stay {body rest stuck : List UInt8} (some_ : body ≠ []) (nobody : receiver g c = none)
    (found : Framing.next (format g.style) bytes = some (body, rest))
    (later : Outcome g c id stuck d) :
    Outcome g c id bytes (d.behind [] [(body.length, 0)]) := by
  have split := Framing.split_some _ _ _ _ found
  have alone : ¬Received g c bytes := by
    unfold Received
    rw [split, filled_cons _ _ some_, nobody]
    simp
  refine ⟨later.others, later.rests, fun received => absurd received alone, fun _ => ?_⟩
  refine ⟨body.length, List.length_pos_iff.mpr some_, ?_⟩
  show (body.length, 0) ∈ [(body.length, 0)] ++ d.handled
  simp

def turn (g : Gate) (c : Connection) (id : Int) (fuel : Nat) (size : Int32) (db : Databuffer) :
    Option Dispatched :=
  if size < 0 then
    some { connection := { c with buffer := db }, outputs := [], handled := [] }
  else if 0 < size then
    if sizeLimit ≤ size then
      some { connection := { c with buffer := .zero }, outputs := tooLarge id, handled := [] }
    else
      (forward g { c with buffer := db } size.toInt.toNat).bind fun (left, sent) =>
        (dispatchLoop g id fuel { left with buffer := databufferReset left.buffer }).bind fun later =>
          some (later.behind sent
            [(size.toInt.toNat, db.unread.length - left.buffer.unread.length)])
  else dispatchLoop g id fuel { c with buffer := db }

theorem dispatchLoop_turn {fuel : Nat} {size : Int32}
    (ran : databufferReadheader c.buffer g.style = some (size, db)) :
    dispatchLoop g id (fuel + 1) c = turn g c id fuel size db := by
  rw [dispatchLoop, ran]
  rfl

theorem turn_others {fuel : Nat} {size : Int32} (buffer : Databuffer) :
    turn g { c with buffer := buffer } id fuel size db = turn g c id fuel size db := rfl

theorem ready_waits (counted : Counted db) {n : Nat} (header : db.header = Int32.ofNat n)
    (small : n < 2 ^ 31) (short : db.unread.length < n) : ready db = -1 := by
  unfold ready
  rw [header, if_pos ((counted.size_lt_iff n small).mpr short)]

theorem ready_whole (counted : Counted db) {n : Nat} (header : db.header = Int32.ofNat n)
    (small : n < 2 ^ 31) (whole : n ≤ db.unread.length) : ready db = Int32.ofNat n := by
  unfold ready
  rw [header, if_neg (by rw [counted.size_lt_iff n small]; omega)]

theorem ready_negative (negative : db.header < 0) : ready db < 0 := by
  unfold ready
  split
  · decide
  · exact negative

theorem turn_waits {fuel : Nat} {size : Int32} (negative : size < 0) :
    turn g c id fuel size db =
      some { connection := { c with buffer := db }, outputs := [], handled := [] } :=
  if_pos negative

theorem turn_closes {fuel n : Nat} (large : 2 ^ 24 ≤ n) (small : n < 2 ^ 31) :
    turn g c id fuel (Int32.ofNat n) db =
      some { connection := { c with buffer := .zero }, outputs := tooLarge id, handled := [] } := by
  have value := Int32.toInt_ofNat_of_lt small
  have positive : (0 : Int32) < Int32.ofNat n := by
    rw [Int32.lt_iff_toInt_lt, value, Int32.toInt_zero]
    omega
  have over_ : sizeLimit ≤ Int32.ofNat n := by
    rw [Int32.le_iff_toInt_le, value]
    have limit : sizeLimit.toInt = 2 ^ 24 := by decide
    omega
  unfold turn
  rw [if_neg (by rw [Int32.lt_iff_toInt_lt] at positive ⊢; omega), if_pos positive, if_pos over_]

theorem turn_skips {fuel : Nat} :
    turn g c id fuel 0 db = dispatchLoop g id fuel { c with buffer := db } := by
  unfold turn
  rw [if_neg (by decide), if_neg (by decide)]

theorem turn_forwards {fuel n : Nat} (pos : 0 < n) (small : n < 2 ^ 24) :
    turn g c id fuel (Int32.ofNat n) db =
      (forward g { c with buffer := db } n).bind fun (left, sent) =>
        (dispatchLoop g id fuel { left with buffer := databufferReset left.buffer }).bind fun later =>
          some (later.behind sent [(n, db.unread.length - left.buffer.unread.length)]) := by
  have value : (Int32.ofNat n).toInt = n := Int32.toInt_ofNat_of_lt (by omega)
  have positive : (0 : Int32) < Int32.ofNat n := by
    rw [Int32.lt_iff_toInt_lt, value, Int32.toInt_zero]
    omega
  have under : ¬sizeLimit ≤ Int32.ofNat n := by
    rw [Int32.le_iff_toInt_le, value]
    have limit : sizeLimit.toInt = 2 ^ 24 := by decide
    omega
  unfold turn
  rw [if_neg (by rw [Int32.lt_iff_toInt_lt] at positive ⊢; omega), if_pos positive, if_neg under,
    value, Int.toNat_natCast]

theorem counted_reset (counted : Counted db) : Counted (databufferReset db) :=
  ⟨⟨counted.placed, counted.size⟩, counted.small⟩

theorem turn_oversized {fuel : Nat} (head : List UInt8) (length : head.length = g.style.size)
    (header : db.header = (declaredSize g.style head).toInt32) (sized : Sized db)
    (large : 2 ^ 24 ≤ declared g.style head) :
    ∃ d, turn g c id fuel (ready db) db = some d ∧ Outcome g c id (head ++ db.unread) d := by
  have value := declaredSize_eq g.style head length
  have rests : Rests g.style db (head ++ db.unread) := .oversized sized head length header large
  have front := declared_append g.style head db.unread length
  by_cases negative : 2 ^ 31 ≤ declared g.style head
  · have below : db.header < 0 := by
      rw [header]
      exact toInt32_neg _ (by omega)
    exact ⟨_, turn_waits (ready_negative below), outcome_waiting rests⟩
  · rw [toInt32_eq, value] at header
    by_cases short : db.size < db.header
    · have waits : ready db = -1 := if_pos short
      rw [waits]
      exact ⟨_, turn_waits (by decide), outcome_waiting rests⟩
    · have reads : ready db = Int32.ofNat (declared g.style head) := (if_neg short).trans header
      have whole : declared g.style head ≤ db.unread.length := by
        by_contra less
        rw [sized.size, header, counter_lt_iff _ _ (by omega) (by omega)] at short
        omega
      rw [reads]
      refine ⟨_, turn_closes large (by omega), outcome_of_part (next_oversized _ length large)
        ⟨_, zero_rests _⟩ (.closed rfl ⟨?_, ?_⟩ ?_)⟩
      · rw [List.length_append]
        omega
      · rw [front]
        exact large
      · rw [List.length_append, front]
        omega

theorem turn_outcome {fuel : Nat} (head : List UInt8) (length : head.length = g.style.size)
    (header : db.header = (declaredSize g.style head).toInt32) (counted : Counted db)
    (later : ∀ left : Databuffer, Counted left → left.header = 0 →
      left.unread.length ≤ db.unread.length →
        ∃ d, dispatchLoop g id fuel { c with buffer := left } = some d ∧
          Outcome g c id left.unread d) :
    ∃ d, turn g c id fuel (ready db) db = some d ∧ Outcome g c id (head ++ db.unread) d := by
  have value := declaredSize_eq g.style head length
  by_cases large : 2 ^ 24 ≤ declared g.style head
  · exact turn_oversized head length header counted.toSized large
  · generalize size : declared g.style head = n at value large
    rw [toInt32_eq, value] at header
    by_cases short : db.unread.length < n
    · rw [ready_waits counted header (by omega) short]
      refine ⟨_, turn_waits (by decide), outcome_waiting (.body counted head length ?_ ?_ ?_)⟩
      · rw [header, size]
      · omega
      · omega
    · have found := next_whole db.unread length (by omega) (by omega)
      rw [size] at found
      rw [ready_whole counted header (by omega) (by omega)]
      rcases Nat.eq_zero_or_pos n with rfl | pos
      · obtain ⟨d, ran, outcome⟩ := later db counted header (le_refl _)
        exact ⟨d, turn_skips.trans ran, outcome.drop found⟩
      · have front : (db.unread.take n).length = n := by
          rw [List.length_take]
          omega
        have some_ : db.unread.take n ≠ [] := List.length_pos_iff.mp (by omega)
        rw [turn_forwards pos (by omega)]
        cases given : receiver g c with
        | none =>
            obtain ⟨d, ran, outcome⟩ := later (databufferReset db) (counted_reset counted) rfl
              (le_refl _)
            have nobody : forward g { c with buffer := db } n = some ({ c with buffer := db }, []) := by
              unfold forward
              rw [show receiver g { c with buffer := db } = none from given]
            refine ⟨_, ?_, outcome.stay some_ given found⟩
            rw [nobody]
            simp only [Option.bind_some, ran, Nat.sub_self, front]
        | some send =>
            obtain ⟨after, read, left, counts, kept⟩ :=
              databufferRead_eq db n counted pos (by omega)
            have less : after.unread.length = db.unread.length - n := by
              rw [left, List.length_drop]
            obtain ⟨d, ran, outcome⟩ := later (databufferReset after) (counted_reset counts) rfl
              (by rw [unread_reset]; omega)
            have sent : forward g { c with buffer := db } n =
                some ({ c with buffer := after }, [.send (send (db.unread.take n))]) := by
              unfold forward
              rw [show receiver g { c with buffer := db } = some send from given]
              simp only [read, Option.map_some]
            rw [unread_reset, left] at outcome
            refine ⟨_, ?_, outcome.pass some_ given found⟩
            rw [sent]
            simp only [Option.bind_some, ran, less, front]
            congr 4
            omega

theorem loop_outcome (fuel : Nat) (counted : Counted db) (none_ : db.header = 0)
    (enough : 2 * db.unread.length < fuel) :
    ∃ d, dispatchLoop g id fuel { c with buffer := db } = some d ∧ Outcome g c id db.unread d := by
  induction fuel generalizing db with
  | zero => omega
  | succ fuel ih =>
      have pos := g.style.size_pos
      have bound := g.style.size_le
      by_cases short : db.unread.length < g.style.size
      · have ran : databufferReadheader db g.style = some (-1, db) := by
          unfold databufferReadheader
          rw [if_pos none_, if_pos ((counted.size_lt_iff _ (by omega)).mpr short)]
        refine ⟨_, (dispatchLoop_turn ran).trans (turn_waits (by decide)),
          outcome_waiting (.header counted none_ short)⟩
      · obtain ⟨after, read, left, counts, kept⟩ :=
          databufferRead_eq db g.style.size counted pos (by omega)
        obtain ⟨head, front⟩ : ∃ head, db.unread.take g.style.size = head := ⟨_, rfl⟩
        rw [front] at read
        obtain ⟨written, same⟩ : ∃ written : Databuffer,
            written = { after with header := (declaredSize g.style head).toInt32 } := ⟨_, rfl⟩
        have ran : databufferReadheader db g.style = some (ready written, written) := by
          unfold databufferReadheader
          rw [if_pos none_, if_neg (by rw [counted.size_lt_iff _ (by omega)]; omega), read, same]
          rfl
        have length : head.length = g.style.size := by
          rw [← front, List.length_take]
          omega
        have unread : written.unread = db.unread.drop g.style.size := by
          rw [same]
          exact left
        have less : written.unread.length = db.unread.length - g.style.size := by
          rw [unread, List.length_drop]
        have counts : Counted written := by
          rw [same]
          exact ⟨⟨counts.placed, counts.size⟩, counts.small⟩
        have turned : ∃ d, turn g c id fuel (ready written) written = some d ∧
            Outcome g c id (head ++ written.unread) d :=
          turn_outcome head length (by rw [same]) counts fun smaller counts empty less' =>
            ih counts empty (by omega)
        rw [unread, ← front, List.take_append_drop] at turned
        obtain ⟨d, turned, outcome⟩ := turned
        exact ⟨d, (dispatchLoop_turn ran).trans turned, outcome⟩

theorem dispatchMessage_outcome (chunk : Chunk) (rests : Rests g.style c.buffer bytes) :
    ∃ d, dispatchMessage g c id chunk.bytes = some d ∧
      Outcome g c id (bytes ++ chunk.bytes) d := by
  have bound := g.style.size_le
  have fits := chunk.fits
  have unread := unread_push c.buffer chunk.bytes rests.sized.placed
  have sized := sized_push c.buffer chunk.bytes chunk.some_ rests.sized
  have length : (databufferPush c.buffer chunk.bytes).unread.length =
      c.buffer.unread.length + chunk.bytes.length := by
    rw [unread, List.length_append]
  -- Where the header has been read, the first turn goes on with it.
  have goes {head : List UInt8} (some_ : c.buffer.header ≠ 0)
      (turned : ∃ d, turn g c id (2 * (databufferPush c.buffer chunk.bytes).unread.length + 1)
        (ready (databufferPush c.buffer chunk.bytes)) (databufferPush c.buffer chunk.bytes) =
          some d ∧ Outcome g c id (head ++ (databufferPush c.buffer chunk.bytes).unread) d) :
      ∃ d, dispatchMessage g c id chunk.bytes = some d ∧
        Outcome g c id (head ++ c.buffer.unread ++ chunk.bytes) d := by
    obtain ⟨d, turned, outcome⟩ := turned
    rw [unread, ← List.append_assoc] at outcome
    have ran : databufferReadheader (databufferPush c.buffer chunk.bytes) g.style =
        some (ready (databufferPush c.buffer chunk.bytes), databufferPush c.buffer chunk.bytes) :=
      if_neg some_
    refine ⟨d, ?_, outcome⟩
    unfold dispatchMessage
    rw [dispatchLoop_turn ran, turn_others]
    exact turned
  cases rests with
  | header counted none_ short =>
      have counts := counted_push c.buffer chunk.bytes chunk.some_ counted (by omega)
      have looped : ∃ d, dispatchMessage g c id chunk.bytes = some d ∧
          Outcome g c id (databufferPush c.buffer chunk.bytes).unread d :=
        loop_outcome _ counts none_ (Nat.lt_add_of_pos_right (by decide))
      rwa [unread] at looped
  | body counted head size header small short =>
      have counts := counted_push c.buffer chunk.bytes chunk.some_ counted (by omega)
      refine goes ?_ (turn_outcome head size ?_ counts fun left counts none_ less =>
        loop_outcome _ counts none_ (by omega))
      · intro none_
        have zero := congrArg Int32.toInt (header.symm.trans none_)
        rw [Int32.toInt_ofNat_of_lt (by omega), Int32.toInt_zero] at zero
        omega
      · show c.buffer.header = _
        rw [header, toInt32_eq, declaredSize_eq g.style head size]
  | oversized _ head size header large =>
      refine goes ?_ (turn_oversized head size header sized large)
      intro none_
      have zero := congrArg Int32.toInt (header.symm.trans none_)
      have value := declaredSize_eq g.style head size
      by_cases negative : 2 ^ 31 ≤ (declaredSize g.style head).toNat
      · have below := toInt32_neg _ negative
        rw [Int32.lt_iff_toInt_lt, zero] at below
        exact absurd below (lt_irrefl _)
      · rw [toInt_toInt32 _ (by omega), Int32.toInt_zero] at zero
        omega

end Pskynet.Gate
