import Pskynet.Buffer.Streams
import Pskynet.Shared.Search

set_option autoImplicit false

namespace Pskynet.Buffer

open CInt Search

def memcmp (msg : Option (List UInt8)) (offset : Int) (sep : List UInt8) (start len : Int) :
    Option Bool := do
  let bytes ← slice msg offset len
  let others ← slice (some sep) start len
  some (bytes = others)

-- `seplen` bytes of `sep` from `start` on are compared with what is at `node` and behind it.
def checkSep (state : State) (sep : List UInt8) : Nat → Nat → Int → Int → Int → Option Bool
  | 0, _, _, _, _ => none
  | fuel + 1, node, from_, start, seplen => do
      let sz := (state.node node).sz - from_
      if sz ≥ seplen then memcmp (state.node node).msg from_ sep start seplen
      else
        let same ← (if sz > 0 then memcmp (state.node node).msg from_ sep start sz else some true)
        if same then
          let next ← (state.node node).next
          checkSep state sep fuel next 0 (start + sz) (seplen - sz)
        else some false

-- The loop over the places, of which `count` are left; the first is `i`.
def searchLoop (state : State) (sep : List UInt8) (seplen : Int) :
    Nat → Nat → Nat → Int → Int → Option (Option Nat)
  | 0, _, _, _, _ => some none
  | count + 1, i, current, from_, bytes => do
      let hit ← checkSep state sep (state.made + 1) current from_ 0 seplen
      if hit then some (some i)
      else if bytes - 1 = 0 then
        match (state.node current).next with
        | none => some none
        | some next => searchLoop state sep seplen count (i + 1) next 0 (state.node next).sz
      else searchLoop state sep seplen count (i + 1) current (from_ + 1) (bytes - 1)

inductive Line where
  | nothing
  | found
  | line (bytes : List UInt8)
  deriving DecidableEq

def lreadline (state : State) (b : Nat) (check : Bool) (sep : List UInt8) :
    Option (State × Line) :=
  let sb := state.buffer b
  match sb.head with
  | none => some (state, .nothing)
  | some current => do
      let seplen := toInt sep.length
      let last ← arith (sb.size - seplen)
      let place ← searchLoop state sep seplen (last + 1).toNat 0 current sb.offset
        ((state.node current).sz - sb.offset)
      match place with
      | none => some (state, .nothing)
      | some i =>
          if check then some (state, .found)
          else
            let (popped, bytes) ← popLstring state b (toInt (i + sep.length)) seplen
            let size := toInt ((popped.buffer b).size - (i + sep.length))
            some (popped.setBuffer b { popped.buffer b with size }, .line bytes)

variable {state : State} {chunks : Nat → List (List UInt8)}

theorem checkSep_some (sep : List UInt8) (fuel n start len : Nat) (offset : Int)
    (parts : List (List UInt8)) (view : View state (some n) offset parts)
    (enough : len ≤ parts.flatten.length) (within : start + len ≤ sep.length)
    (rounds : parts.length ≤ fuel) :
    checkSep state sep fuel n offset start len =
      some (decide ((sep.drop start).take len <+: parts.flatten)) := by
  induction fuel generalizing n start len offset parts with
  | zero =>
    rw [List.eq_nil_of_length_eq_zero (Nat.le_zero.mp rounds)] at view
    exact absurd view.empty (Option.some_ne_none n)
  | succ fuel ih =>
    cases parts with
    | nil => exact absurd view.empty (Option.some_ne_none n)
    | cons chunk rest =>
      obtain ⟨m, same, reads, later⟩ := view.reads
      obtain rfl := Option.some.inj same
      rw [flatten_length_cons] at enough
      simp only [checkSep, reads.bytes]
      by_cases last : len ≤ chunk.length
      · rw [if_pos (by omega)]
        simp only [memcmp, reads.reads len last, slice_some sep start len within,
          Option.bind_eq_bind, Option.bind_some, Option.some.injEq, decide_eq_decide]
        rw [List.flatten_cons, List.prefix_iff_eq_take, List.length_take, List.length_drop,
          Nat.min_eq_left (by omega), List.take_append_of_le_length last]
        exact eq_comm
      · have positive := List.length_pos_iff.mpr reads.filled
        rw [if_neg (by omega), if_pos (by omega)]
        have part : start + chunk.length ≤ sep.length := by omega
        simp only [memcmp, reads.reads chunk.length le_rfl, List.take_length,
          slice_some sep start chunk.length part, Option.bind_eq_bind, Option.bind_some]
        have split : (sep.drop start).take len = (sep.drop start).take chunk.length ++
            (sep.drop (start + chunk.length)).take (len - chunk.length) := by
          rw [← List.drop_drop, ← List.take_add, Nat.add_sub_cancel' (by omega)]
        have size : ((sep.drop start).take chunk.length).length = chunk.length := by
          rw [List.length_take, List.length_drop]
          omega
        simp only [split, List.flatten_cons, List.prefix_append_inj_of_length_eq size]
        by_cases equal : chunk = (sep.drop start).take chunk.length
        · rw [if_pos (decide_eq_true equal)]
          cases rest with
          | nil =>
            simp only [List.flatten_nil, List.length_nil] at enough
            omega
          | cons second more =>
            obtain ⟨next, link, -, -⟩ := later.reads
            have link_ : (state.node n).next = some next := link
            rw [link] at later
            simp only [link_, Option.bind_some]
            have rest := ih next (start + chunk.length) (len - chunk.length) 0 _ later (by omega)
              (by omega) (Nat.le_of_succ_le_succ rounds)
            rw [Nat.cast_add, Nat.cast_sub (by omega)] at rest
            rw [rest]
            simp [← equal]
        · rw [if_neg (by simpa using equal)]
          simp [Ne.symm equal]

theorem find_short {needle text : List UInt8} (short : text.length < needle.length) :
    find needle text = none := by
  have filled : needle ≠ [] := List.ne_nil_of_length_pos (by omega)
  rw [find_none_iff filled]
  intro inside
  have := inside.length_le
  omega

theorem searchLoop_some (sep : List UInt8) (len : Nat) (within : len ≤ sep.length)
    (count i n : Nat) (offset : Int) (chunk : List UInt8) (rest : List (List UInt8))
    (view : View state (some n) offset (chunk :: rest))
    (places : count = (chunk :: rest).flatten.length + 1 - len)
    (rounds : (chunk :: rest).length ≤ state.made + 1) :
    searchLoop state sep len count i n offset chunk.length =
      some ((find (sep.take len) (chunk :: rest).flatten).map (i + ·)) := by
  have size : (sep.take len).length = len := by
    rw [List.length_take]
    omega
  induction count generalizing i n offset chunk rest with
  | zero =>
    rw [find_short (by omega)]
    rfl
  | succ count ih =>
    have hit := checkSep_some sep (state.made + 1) n 0 len offset _ view (by omega) (by omega) rounds
    rw [List.drop_zero, Nat.cast_zero] at hit
    obtain ⟨m, same, reads, later⟩ := view.reads
    obtain rfl := Option.some.inj same
    obtain ⟨a, chunk, rfl⟩ := List.exists_cons_of_ne_nil reads.filled
    rw [List.flatten_cons, List.cons_append, List.length_cons, List.length_append] at places
    rw [List.flatten_cons, List.cons_append] at hit ⊢
    simp only [searchLoop, hit, Option.bind_eq_bind, Option.bind_some, find]
    by_cases here : sep.take len <+: a :: (chunk ++ rest.flatten)
    · rw [if_pos (decide_eq_true here), if_pos here]
      rfl
    · rw [if_neg (by simpa using here), if_neg here]
      have shift (found : Option Nat) :
          (found.map (· + 1)).map (i + ·) = found.map (i + 1 + ·) := by
        rw [Option.map_map]
        congr 1
        funext j
        simp only [Function.comp_apply]
        omega
      rw [shift]
      cases chunk with
      | nil =>
        rw [if_pos (by simp)]
        cases rest with
        | nil =>
          have last : (state.node n).next = none := later.empty
          simp only [last]
          rfl
        | cons second more =>
          obtain ⟨next, link, found, -⟩ := later.reads
          have link_ : (state.node n).next = some next := link
          have sz := found.bytes
          rw [Int.sub_zero] at sz
          rw [link] at later
          simp only [link_, sz, List.nil_append]
          rw [List.length_nil] at places
          exact ih (i + 1) next 0 second more later (by omega) (Nat.le_of_succ_le rounds)
      | cons second chunk =>
        rw [if_neg (by simp; omega)]
        have moved := view.advance 1 (by simp)
        have rest := ih (i + 1) n (offset + 1) (second :: chunk) rest moved
          (by rw [flatten_length_cons]; omega) rounds
        rw [List.flatten_cons] at rest
        rw [← rest]
        congr 1
        rw [List.length_cons]
        omega

structure ReadsLine (state : State) (streams : Streams) (b : Nat) (check : Bool)
    (sep : List UInt8) : Prop where
  absent : ¬sep <:+: streams b → lreadline state b check sep = some (state, .nothing)
  present : sep <:+: streams b → check = true → lreadline state b check sep = some (state, .found)
  line : check = false → ∀ i, FirstAt sep (streams b) i →
    ∃ next, lreadline state b check sep = some (next, .line ((streams b).take i)) ∧
      Represents next (Function.update streams b ((streams b).drop (i + sep.length)))

-- A node is read whole between the first and the last byte of the `len` bytes at `i`.
def Inside (parts : List (List UInt8)) (i len : Nat) : Prop :=
  ∃ before chunk after, parts = before ++ chunk :: after ∧
    i < before.flatten.length ∧ before.flatten.length + chunk.length < i + len

-- What the separator, whose length is cut to an `int`, needs for the line to be read.
def Separates (parts : List (List UInt8)) (check : Bool) (sep : List UInt8) : Prop :=
  let unread := parts.flatten
  let seplen := toInt sep.length
  unread = [] ∨
    (seplen = sep.length ∧
      (check = true ∨ ∀ i, FirstAt sep unread i → ¬Inside parts i sep.length)) ∨
    (seplen ≠ sep.length ∧ 0 < seplen ∧ ¬sep.take seplen.toNat <:+: unread)

theorem lreadline_empty (chunked : Chunked state chunks) {b : Nat} (none_ : chunks b = [])
    (check : Bool) (sep : List UInt8) : lreadline state b check sep = some (state, .nothing) := by
  simp only [lreadline, chunked.empty none_]

def finish (state : State) (b : Nat) (check : Bool) (sep : List UInt8) :
    Option Nat → Option (State × Line)
  | none => some (state, .nothing)
  | some i =>
      if check then some (state, .found)
      else do
        let (popped, bytes) ← popLstring state b (toInt (i + sep.length)) (toInt sep.length)
        let size := toInt ((popped.buffer b).size - (i + sep.length))
        some (popped.setBuffer b { popped.buffer b with size }, .line bytes)

theorem lreadline_front {b n : Nat} {chunk : List UInt8} (front : Front state b n chunk)
    (check : Bool) (sep : List UInt8) :
    lreadline state b check sep =
      (arith ((state.buffer b).size - toInt sep.length)).bind fun last =>
        (searchLoop state sep (toInt sep.length) (last + 1).toNat 0 n (state.buffer b).offset
          chunk.length).bind (finish state b check sep) := by
  simp only [lreadline, front.head, front.bytes, Option.bind_eq_bind]
  congr 1

theorem finish_some (state : State) (b i : Nat) (check : Bool) (sep : List UInt8) :
    finish state b check sep (some i) ≠ some (state, .nothing) := by
  simp only [finish]
  split
  · simp
  · simp [Option.bind_eq_some_iff]

theorem searchLoop_cut {b n : Nat} {chunk : List UInt8} (front : Front state b n chunk)
    (sep : List UInt8) (seplen : Int) (cut : seplen ≤ 0) (count : Nat) :
    searchLoop state sep seplen (count + 1) 0 n (state.buffer b).offset chunk.length =
      if seplen = 0 then some (some 0) else none := by
  simp only [searchLoop, checkSep, front.bytes]
  rw [if_pos (by omega)]
  by_cases zero : seplen = 0
  · subst zero
    have first : slice (state.node n).msg (state.buffer b).offset 0 = some [] :=
      front.reads 0 (Nat.zero_le _)
    have second : slice (some sep) 0 0 = some [] := slice_some sep 0 0 (Nat.zero_le _)
    simp [memcmp, first, second]
  · simp [memcmp, zero, slice_negative _ _ seplen (by omega)]

theorem lreadline_find (chunked : Chunked state chunks)
    (represents : Represents state fun b => (chunks b).flatten) {b : Nat} (check : Bool)
    (sep : List UInt8) {len : Nat} (cut : toInt sep.length = len) (within : len ≤ sep.length)
    (some_ : chunks b ≠ []) :
    lreadline state b check sep =
      finish state b check sep (find (sep.take len) (chunks b).flatten) := by
  obtain ⟨chunk, rest, parts⟩ := List.exists_cons_of_ne_nil some_
  obtain ⟨n, front⟩ := chunked.front parts
  have view := chunked.view b
  rw [front.head, parts] at view
  have small := represents.small b
  have size := represents.sizes b
  have rounds := chunked.length_le b
  have range := toInt_range sep.length
  rw [parts] at small size rounds
  have found := searchLoop_some sep len within _ 0 n _ chunk rest view rfl (by omega)
  rw [lreadline_front front, cut, size, arith_eq (by omega) (by omega), Option.bind_some,
    show (((chunk :: rest).flatten.length : Int) - len + 1).toNat =
      (chunk :: rest).flatten.length + 1 - len by omega, found, parts]
  simp

theorem finish_line (chunked : Chunked state chunks)
    (represents : Represents state fun b => (chunks b).flatten) {b : Nat} {sep : List UInt8}
    (narrow : toInt sep.length = sep.length) (filled : sep ≠ []) {i : Nat}
    (first : FirstAt sep (chunks b).flatten i) (free : ¬Stuck i (i + sep.length) (chunks b)) :
    ∃ next, finish state b false sep (some i) = some (next, .line ((chunks b).flatten.take i)) ∧
      Represents next (Function.update (fun b => (chunks b).flatten) b
        ((chunks b).flatten.drop (i + sep.length))) := by
  have enough := first.length_le filled
  have small := represents.small b
  have size := represents.sizes b
  have positive := List.length_pos_iff.mpr filled
  have total : toInt ((i : Int) + sep.length) = ((i + sep.length : Nat) : Int) := by
    rw [toInt_eq (by omega) (by omega)]
    rfl
  obtain ⟨popped, taken, ⟨rest, kept, left⟩, sizes⟩ := popLstring_some chunked b (i + sep.length)
    sep.length (by omega) (by omega) enough (by simpa using free)
  rw [Nat.add_sub_cancel] at taken
  have remaining : toInt ((popped.buffer b).size - (i + sep.length)) =
      ((chunks b).flatten.drop (i + sep.length)).length := by
    rw [sizes b, size, List.length_drop, toInt_eq (by omega) (by omega)]
    omega
  refine ⟨popped.setBuffer b { popped.buffer b with
    size := toInt ((popped.buffer b).size - (i + sep.length)) }, ?_, ?_⟩
  · simp only [finish, total, narrow, taken, Option.bind_eq_bind, Option.bind_some]
    rfl
  · refine represents.set (fun _ => rfl) b rest _ left (kept.resize b _) ?_ ?_ ?_
    · rw [setBuffer_buffer, Function.update_self]
      exact remaining
    · rw [List.length_drop]
      omega
    · intro c other
      rw [setBuffer_buffer, Function.update_of_ne other, sizes c]

theorem finish_stuck (chunked : Chunked state chunks) {b : Nat} {sep : List UInt8}
    (narrow : toInt sep.length = sep.length) {i : Nat}
    (small : i + sep.length < 2 ^ 31) (stuck : Stuck i (i + sep.length) (chunks b)) :
    finish state b false sep (some i) = none := by
  have total : toInt ((i : Int) + sep.length) = ((i + sep.length : Nat) : Int) := by
    rw [toInt_eq (by omega) (by omega)]
    rfl
  have failed := popLstring_stuck chunked b (i + sep.length) sep.length (by simpa using stuck)
  simp only [finish, total, narrow, failed]
  rfl

theorem stuck_inside (i len : Nat) (parts : List (List UInt8)) :
    Stuck i (i + len) parts ↔ Inside parts i len := by
  rw [stuck_iff]
  simp only [Inside, Nat.cast_lt]

theorem lreadline_narrow (chunked : Chunked state chunks)
    (represents : Represents state fun b => (chunks b).flatten) {b : Nat} (check : Bool)
    {sep : List UInt8} (filled : sep ≠ []) (some_ : chunks b ≠ [])
    (narrow : toInt sep.length = sep.length) :
    ReadsLine state (fun b => (chunks b).flatten) b check sep ↔
      check = true ∨ ∀ i, FirstAt sep (chunks b).flatten i →
        ¬Inside (chunks b) i sep.length := by
  have reads := lreadline_find chunked represents check sep narrow le_rfl some_
  rw [List.take_length] at reads
  cases found : find sep (chunks b).flatten with
  | none =>
    have absent := (find_none_iff filled _).mp found
    rw [found] at reads
    refine ⟨fun _ => .inr fun i first => absurd first.infix absent, fun _ => ⟨?_, ?_, ?_⟩⟩
    · exact fun _ => reads
    · exact fun present => absurd present absent
    · exact fun _ i first => absurd first.infix absent
  | some i =>
    have first := (find_some_iff filled _ i).mp found
    have enough := first.length_le filled
    have small := represents.small b
    rw [found] at reads
    cases check with
    | true =>
      refine ⟨fun _ => .inl rfl, fun _ => ⟨?_, ?_, ?_⟩⟩
      · exact fun absent => absurd first.infix absent
      · exact fun _ _ => reads
      · exact fun off => absurd off (Bool.noConfusion)
    | false =>
      constructor
      · intro line
        refine .inr fun j other inside => ?_
        obtain rfl := first.unique other
        obtain ⟨next, taken, -⟩ := line.line rfl i first
        have failed := finish_stuck chunked narrow (by omega) ((stuck_inside ..).mpr inside)
        rw [reads, failed] at taken
        exact absurd taken.symm (Option.some_ne_none _)
      · intro free
        have free := free.resolve_left (Bool.noConfusion)
        refine ⟨fun absent => absurd first.infix absent, fun _ off => Bool.noConfusion off, ?_⟩
        intro _ j other
        obtain rfl := first.unique other
        rw [reads]
        exact finish_line chunked represents narrow filled first fun stuck =>
          free i first ((stuck_inside ..).mp stuck)

theorem lreadline_wide (chunked : Chunked state chunks)
    (represents : Represents state fun b => (chunks b).flatten) {b : Nat} (check : Bool)
    {sep : List UInt8} (some_ : chunks b ≠ []) (wide : toInt sep.length ≠ sep.length) :
    ReadsLine state (fun b => (chunks b).flatten) b check sep ↔
      0 < toInt sep.length ∧ ¬sep.take (toInt sep.length).toNat <:+: (chunks b).flatten := by
  have small := represents.small b
  have large : 2 ^ 31 ≤ sep.length := by
    by_contra less
    exact wide (toInt_eq (by omega) (by omega))
  have absent : ¬sep <:+: (chunks b).flatten := fun inside => by
    have := inside.length_le
    omega
  have nothing : ReadsLine state (fun b => (chunks b).flatten) b check sep ↔
      lreadline state b check sep = some (state, .nothing) := by
    refine ⟨fun line => line.absent absent, fun reads => ⟨fun _ => reads, ?_, ?_⟩⟩
    · exact fun present => absurd present absent
    · exact fun _ i first => absurd first.infix absent
  rw [nothing]
  obtain ⟨chunk, rest, parts⟩ := List.exists_cons_of_ne_nil some_
  obtain ⟨n, front⟩ := chunked.front parts
  rcases lt_or_ge 0 (toInt sep.length) with positive | cut
  · obtain ⟨len, same⟩ := Int.eq_ofNat_of_zero_le positive.le
    have range := toInt_range sep.length
    have within : len ≤ sep.length := by omega
    have filled : sep.take len ≠ [] :=
      List.ne_nil_of_length_pos (by rw [List.length_take]; omega)
    rw [lreadline_find chunked represents check sep same within some_, same, Int.toNat_natCast,
      ← find_none_iff filled]
    cases find (sep.take len) (chunks b).flatten with
    | none => exact iff_of_true rfl ⟨by omega, rfl⟩
    | some i => simp [finish_some]
  · refine iff_of_false ?_ fun separated => absurd separated.1 cut.not_gt
    rw [lreadline_front front, represents.sizes b]
    cases done : arith ((chunks b).flatten.length - toInt sep.length) with
    | none => exact fun taken => Option.some_ne_none _ taken.symm
    | some last =>
      obtain ⟨rfl, -⟩ := arith_some done
      rw [Option.bind_some, show (((chunks b).flatten.length : Int) - toInt sep.length + 1).toNat =
        ((chunks b).flatten.length - toInt sep.length).toNat + 1 by omega,
        searchLoop_cut front sep _ cut]
      by_cases zero : toInt sep.length = 0
      · rw [if_pos zero]
        exact finish_some state b 0 check sep
      · rw [if_neg zero]
        exact fun taken => Option.some_ne_none _ taken.symm

theorem lreadline_iff (chunked : Chunked state chunks)
    (represents : Represents state fun b => (chunks b).flatten) (b : Nat) (check : Bool)
    (sep : List UInt8) (filled : sep ≠ []) :
    ReadsLine state (fun b => (chunks b).flatten) b check sep ↔
      Separates (chunks b) check sep := by
  by_cases none_ : chunks b = []
  · have reads := lreadline_empty chunked none_ check sep
    have unread : (chunks b).flatten = [] := by rw [none_, List.flatten_nil]
    have absent : ¬sep <:+: (chunks b).flatten := by simp [none_, filled]
    refine iff_of_true ⟨fun _ => reads, ?_, ?_⟩ (.inl unread)
    · exact fun present => absurd present absent
    · exact fun _ i first => absurd first.infix absent
  · have unread : (chunks b).flatten ≠ [] := by
      obtain ⟨chunk, rest, parts⟩ := List.exists_cons_of_ne_nil none_
      obtain ⟨n, front⟩ := chunked.front parts
      simp [parts, front.filled]
    by_cases narrow : toInt sep.length = sep.length
    · rw [lreadline_narrow chunked represents check filled none_ narrow]
      refine ⟨fun free => .inr (.inl ⟨narrow, free⟩), ?_⟩
      rintro (empty | ⟨-, free⟩ | ⟨wide, -⟩)
      · exact absurd empty unread
      · exact free
      · exact absurd narrow wide
    · rw [lreadline_wide chunked represents check none_ narrow]
      refine ⟨fun skip => .inr (.inr ⟨narrow, skip⟩), ?_⟩
      rintro (empty | ⟨same, -⟩ | ⟨-, skip⟩)
      · exact absurd empty unread
      · exact absurd same narrow
      · exact skip

theorem short_separates (chunked : Chunked state chunks) (b : Nat) (check : Bool)
    {sep : List UInt8} (short : sep.length ≤ 2) : Separates (chunks b) check sep := by
  refine .inr (.inl ⟨toInt_eq (by omega) (by omega), .inr ?_⟩)
  rintro i - ⟨before, chunk, after, parts, low, high⟩
  obtain ⟨chain, free, stored⟩ := chunked
  have filled := (stored.holds b).filled chunk (by simp [parts])
  have positive := List.length_pos_iff.mpr filled
  omega

theorem pushAll_chunked (b : Nat) (blocks : List (List UInt8)) (chunked : Chunked state chunks)
    (represents : Represents state fun b => (chunks b).flatten)
    (filled : ∀ block ∈ blocks, block ≠ [])
    (fits : (chunks b).flatten.length + blocks.flatten.length < 2 ^ 31) :
    ∃ final replies, serveAll state (blocks.map (Call.push b)) = some (final, replies) ∧
      Chunked final (Function.update chunks b (chunks b ++ blocks)) ∧
      Represents final fun c => (Function.update chunks b (chunks b ++ blocks) c).flatten := by
  induction blocks generalizing state chunks with
  | nil =>
    refine ⟨state, [], rfl, ?_, ?_⟩
    · rwa [List.append_nil, Function.update_eq_self]
    · rwa [List.append_nil, Function.update_eq_self]
  | cons block rest ih =>
    rw [flatten_length_cons] at fits
    have first : block ≠ [] := filled block List.mem_cons_self
    obtain ⟨next, taken, kept, size, others⟩ :=
      chunked.push b first (toInt_eq (by omega) (by omega))
        (by rw [represents.sizes b]; exact arith_eq (by omega) (by omega))
    have streams : (fun c => (Function.update chunks b (chunks b ++ [block]) c).flatten) =
        Function.update (fun c => (chunks c).flatten) b ((chunks b).flatten ++ block) := by
      funext c
      by_cases same : c = b
      · simp [same]
      · simp [same]
    have after : Represents next
        fun c => (Function.update chunks b (chunks b ++ [block]) c).flatten := by
      rw [streams]
      refine represents.set (fun _ => rfl) b _ _ (by simp) kept ?_ ?_ others
      · rw [size, represents.sizes b, List.length_append]
        rfl
      · rw [List.length_append]
        omega
    obtain ⟨final, replies, ran, held, last⟩ := ih kept after
      (fun other inside => filled other (List.mem_cons_of_mem _ inside))
      (by simp only [Function.update_self, List.flatten_append, List.flatten_singleton,
            List.length_append]
          omega)
    refine ⟨final, .pushed ((state.buffer b).size + block.length) :: replies, ?_, ?_, ?_⟩
    · simp only [List.map_cons, serveAll, serve, taken, Option.map_some, Option.bind_eq_bind,
        Option.bind_some, ran]
    · simpa using held
    · simpa using last

theorem lreadline_two_nodes : ∃ state replies,
    serveAll init [.push 0 [120, 97], .push 0 [98]] = some (state, replies) ∧
      ∃ chunks : Nat → List (List UInt8), chunks 0 = [[120, 97], [98]] ∧
        (ReadsLine state (fun b => (chunks b).flatten) 0 false [97, 98] ↔
          Separates (chunks 0) false [97, 98]) := by
  obtain ⟨state, replies, ran, chunked, represents⟩ := pushAll_chunked 0 [[120, 97], [98]]
    init_chunked init_represents (by decide) (by decide)
  exact ⟨state, replies, ran, _, rfl, lreadline_iff chunked represents 0 false [97, 98] (by decide)⟩

theorem node_inside_separator : ∃ state replies,
    serveAll init [.push 0 [120, 97], .push 0 [98], .push 0 [99]] = some (state, replies) ∧
      (expectAll (fun _ => []) [.push 0 [120, 97], .push 0 [98], .push 0 [99]]).1 0 =
        [120, 97, 98, 99] ∧
      FirstAt [(97 : UInt8), 98, 99] [120, 97, 98, 99] 1 ∧ lreadline state 0 false [97, 98, 99] = none ∧
      ¬ReadsLine state
        (expectAll (fun _ => []) [.push 0 [120, 97], .push 0 [98], .push 0 [99]]).1 0 false
          [97, 98, 99] := by
  have ran : ((serveAll init [.push 0 [120, 97], .push 0 [98], .push 0 [99]]).map fun both =>
      (lreadline both.1 0 false [97, 98, 99]).isNone) = some true := by decide
  obtain ⟨⟨state, replies⟩, served, failed⟩ := Option.map_eq_some_iff.mp ran
  have first : FirstAt [(97 : UInt8), 98, 99] [120, 97, 98, 99] 1 :=
    (find_some_iff (by decide) _ _).mp (by decide)
  refine ⟨state, replies, served, rfl, first, Option.isNone_iff_eq_none.mp failed, ?_⟩
  intro line
  obtain ⟨next, taken, -⟩ := line.line rfl 1 first
  rw [Option.isNone_iff_eq_none.mp failed] at taken
  exact Option.some_ne_none _ taken.symm

end Pskynet.Buffer
