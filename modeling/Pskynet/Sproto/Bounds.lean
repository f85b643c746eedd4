import Pskynet.Sproto.Decode

set_option autoImplicit false

namespace Pskynet.Sproto

-- `args->value` and `args->length`: an integer, or the place of bytes in the input.
inductive ArgValue where
  | qword (v : UInt64)
  | slice (start : Nat) (length : Int)
  deriving DecidableEq

structure SprotoArg where
  field : Field
  index : Nat
  value : ArgValue

-- What the decoder did: it called the callback, or went on behind the data of a field or of an
-- element, where `length` is declared at `start` and `size` bytes were left.
inductive Event where
  | arg (a : SprotoArg)
  | past (start length : Nat) (size : Int)

inductive Ending where
  | refused
  | outside
  deriving DecidableEq

inductive Outcome where
  | stop (why : Ending)
  | returned (n : Int)
  deriving DecidableEq

-- Without an `Ending` the decoder goes on.
abbrev Turn := List Event × Option Ending

def Turn.andThen (first second : Turn) : Turn :=
  match first with
  | (events, none) => (events ++ second.1, second.2)
  | (events, some why) => (events, some why)

def toInt (v : UInt32) : Int := if v.toNat < 2 ^ 31 then v.toNat else v.toNat - 2 ^ 32

-- Whether the callback returns another value than 0. It may depend on what was passed before: no
-- two calls have the same tag and index.
section

variable (cb : SprotoArg → Bool) (data : List UInt8)

def reads (start size : Nat) (turn : Turn) : Turn :=
  if start + size ≤ data.length then turn else ([], some .outside)

def passQword (field : Field) (index : Nat) (v : UInt64) : Turn :=
  ([.arg ⟨field, index, .qword v⟩], none)

def passSlice (field : Field) (index start : Nat) (length : Int) : Turn :=
  ([.arg ⟨field, index, .slice start length⟩],
    if cb ⟨field, index, .slice start length⟩ then some .refused else none)

-- `sz` is an `int`. Each turn takes four bytes or more of it.
def decodeArrayObjectEvents (field : Field) : Nat → Nat → Nat → Int → Turn
  | 0, _, _, _ => ([], none)
  | turns + 1, index, stream, sz =>
      if 0 < sz then
        if sz < sizeofLength then ([], some .refused)
        else
          reads data stream sizeofLength <|
            let hsz := (todword (data.drop stream)).toNat
            if sz - sizeofLength < hsz then ([], some .refused)
            else
              ((passSlice cb field index (stream + sizeofLength) hsz).andThen
                ([.past stream hsz sz], none)).andThen
                (decodeArrayObjectEvents field turns (index + 1) (stream + sizeofLength + hsz)
                  (sz - sizeofLength - hsz))
      else ([], none)

-- `count` elements of the same size, from the `i`-th on.
def valueEvents (field : Field) (stream size : Nat) (value : Nat → UInt64) : Nat → Nat → Turn
  | _, 0 => ([], none)
  | i, count + 1 =>
      (reads data (stream + i * size) size (passQword field (i + 1) (value (stream + i * size)))).andThen
        (valueEvents field stream size value (i + 1) count)

def decodeArrayEvents (field : Field) (currentdata : Nat) : Turn :=
  let sz := (todword (data.drop currentdata)).toNat
  let stream := currentdata + sizeofLength
  match field.type with
  | .integer =>
      if sz < 1 then ([], some .refused)
      else
        reads data stream 1 <|
          let len := data.getD stream 0
          let stream := stream + 1
          let sz := sz - 1
          if len = 4 then
            if sz % 4 ≠ 0 then ([], some .refused)
            else
              valueEvents data field stream 4 (fun at_ => expand64 (todword (data.drop at_))) 0 (sz / 4)
          else if len = 8 then
            if sz % 8 ≠ 0 then ([], some .refused)
            else valueEvents data field stream 8 (fun at_ => toqword (data.drop at_)) 0 (sz / 8)
          else ([], some .refused)
  | .boolean => valueEvents data field stream 1 (fun at_ => (data.getD at_ 0).toUInt64) 0 sz
  | .string | .struct =>
      let sz := toInt (todword (data.drop currentdata))
      decodeArrayObjectEvents cb data field (sz.toNat + 1) 1 stream sz

def fieldEvents (field : Field) (currentdata : Nat) : Turn :=
  if field.array then decodeArrayEvents cb data field currentdata
  else
    let sz := todword (data.drop currentdata)
    let stream := currentdata + sizeofLength
    match field.type with
    | .integer =>
        if sz = 4 then
          reads data stream 4 (passQword field 0 (expand64 (todword (data.drop stream))))
        else if sz ≠ 8 then ([], some .refused)
        else reads data stream 8 (passQword field 0 (toqword (data.drop stream)))
    | .string | .struct => passSlice cb field 0 stream (toInt sz)
    | .boolean => ([], some .refused)

def fieldTurn (st : SprotoType) (tag : Int) (currentdata : Nat) : Turn :=
  match findtag st tag with
  | none => ([], none)
  | some field => fieldEvents cb data field currentdata

-- The loop over the records; `datastream` is where the data is that is left, and `size` its size.
def recordEvents (st : SprotoType) : List Nat → Int → Nat → Int → List Event × Outcome
  | [], _, _, size => ([], .returned (data.length - size))
  | value :: words, tag, datastream, size =>
      let tag := tag + 1
      if value % 2 = 1 then recordEvents st words (tag + (value / 2 : Nat)) datastream size
      else
        let value : Int := (value / 2 : Nat) - 1
        if value < 0 then
          if size < sizeofLength then ([], .stop .refused)
          else
            let sz := todword (data.drop datastream)
            let step := (sz + 4).toNat
            if size < step then ([], .stop .refused)
            else
              match fieldTurn cb data st tag datastream with
              | (events, some why) => (events, .stop why)
              | (events, none) =>
                  let (later, outcome) := recordEvents st words tag (datastream + step) (size - step)
                  (events ++ .past datastream sz.toNat size :: later, outcome)
        else
          match findtag st tag with
          | none => recordEvents st words tag datastream size
          | some field =>
              if field.array ∨ field.type ≠ .integer ∧ field.type ≠ .boolean then
                ([], .stop .refused)
              else
                let (later, outcome) := recordEvents st words tag datastream size
                (.arg ⟨field, 0, .qword (UInt64.ofNat value.toNat)⟩ :: later, outcome)

def sprotoDecodeEvents (st : SprotoType) : List Event × Outcome :=
  if data.length < sizeofHeader then ([], .stop .refused)
  else
    let fn := toword data
    if data.length - sizeofHeader < fn * sizeofField then ([], .stop .refused)
    else
      let words := (List.range fn).map fun i => toword (data.drop (sizeofHeader + i * sizeofField))
      recordEvents cb data st words (-1) (sizeofHeader + fn * sizeofField)
        (data.length - sizeofHeader - fn * sizeofField : Nat)

end

def Event.Inside (total : Nat) : Event → Prop
  | .arg ⟨_, _, .slice start length⟩ => 0 ≤ length ∧ start + length ≤ total
  | .arg ⟨_, _, .qword _⟩ => True
  | .past start length size => sizeofLength + length ≤ size ∧ start + sizeofLength + length ≤ total

structure Stays (total : Nat) (done : List Event × Outcome) : Prop where
  inside : ∀ event ∈ done.1, event.Inside total
  reads : done.2 ≠ .stop .outside
  consumed : ∀ n, done.2 = .returned n → 0 ≤ n ∧ n ≤ total

def DecodesInside (st : SprotoType) (data : List UInt8) : Prop :=
  ∀ cb, Stays data.length (sprotoDecodeEvents cb data st)

structure Turn.Inside (total : Nat) (turn : Turn) : Prop where
  inside : ∀ event ∈ turn.1, event.Inside total
  reads : turn.2 ≠ some .outside

variable {data : List UInt8} {cb : SprotoArg → Bool} {total : Nat}

theorem inside_stop {why : Ending} (other : why ≠ .outside) :
    Turn.Inside total ([], some why) where
  inside := fun _ inside => by cases inside
  reads := fun is => other (Option.some.inj is)

theorem inside_nothing : Turn.Inside total ([], none) where
  inside := fun _ inside => by cases inside
  reads := fun is => by cases is

theorem Turn.Inside.andThen {first second : Turn} (one : first.Inside total)
    (two : first.2 = none → second.Inside total) : (first.andThen second).Inside total := by
  obtain ⟨events, ending⟩ := first
  cases ending with
  | some why => exact one
  | none =>
    have two := two rfl
    refine ⟨?_, two.reads⟩
    intro event inside
    rcases List.mem_append.mp inside with old | new_
    · exact one.inside event old
    · exact two.inside event new_

theorem reads_inside {start size : Nat} {turn : Turn} (fits : start + size ≤ data.length)
    (inside : turn.Inside total) : (reads data start size turn).Inside total := by
  unfold reads
  rw [if_pos fits]
  exact inside

theorem passSlice_inside {field : Field} {index start : Nat} {length : Int} (least : 0 ≤ length)
    (fits : start + length ≤ total) : (passSlice cb field index start length).Inside total := by
  refine ⟨?_, ?_⟩
  · intro event inside
    rw [List.mem_singleton.mp inside]
    exact ⟨least, fits⟩
  · unfold passSlice
    split_ifs <;> simp

theorem passQword_inside {field : Field} {index : Nat} {v : UInt64} :
    (passQword field index v).Inside total := by
  refine ⟨?_, ?_⟩
  · intro event inside
    rw [List.mem_singleton.mp inside]
    trivial
  · simp [passQword]

theorem decodeArrayObjectEvents_inside (field : Field) (turns index stream : Nat) (sz : Int)
    (fits : stream + sz ≤ data.length) :
    (decodeArrayObjectEvents cb data field turns index stream sz).Inside data.length := by
  induction turns generalizing index stream sz with
  | zero => exact inside_nothing
  | succ turns ih =>
    unfold decodeArrayObjectEvents
    split_ifs with more short
    · exact inside_stop (by simp)
    · have four : sizeofLength = 4 := rfl
      refine reads_inside (by omega) ?_
      simp only
      split_ifs with long
      · exact inside_stop (by simp)
      · apply Turn.Inside.andThen
        · apply Turn.Inside.andThen
          · exact passSlice_inside (by omega) (by push_cast; omega)
          · intro _
            refine ⟨?_, by simp⟩
            intro event inside
            rw [List.mem_singleton.mp inside]
            exact ⟨by omega, by omega⟩
        · intro _
          exact ih _ _ _ (by push_cast; omega)
    · exact inside_nothing

theorem valueEvents_inside (field : Field) (stream size : Nat) (value : Nat → UInt64) (i count : Nat)
    (fits : stream + (i + count) * size ≤ data.length) :
    (valueEvents data field stream size value i count).Inside data.length := by
  induction count generalizing i with
  | zero => exact inside_nothing
  | succ count ih =>
    unfold valueEvents
    have next : (i + 1 + count) * size = (i + (count + 1)) * size := by ring
    have here : (i + (count + 1)) * size = i * size + size + count * size := by ring
    apply Turn.Inside.andThen
    · refine reads_inside ?_ passQword_inside
      omega
    · intro _
      refine ih (i + 1) ?_
      rw [next]
      exact fits

theorem valueEvents_outside (field : Field) (stream size : Nat) (value : Nat → UInt64)
    (i count : Nat) (beyond : data.length < stream + (i + count) * size) (some_ : 0 < count) :
    (valueEvents data field stream size value i count).2 = some .outside := by
  induction count generalizing i with
  | zero => exact absurd some_ (Nat.lt_irrefl 0)
  | succ count ih =>
    unfold valueEvents reads
    split_ifs with fits
    · have next : (i + 1 + count) * size = (i + (count + 1)) * size := by ring
      have last : 0 < count := by
        refine Nat.pos_of_ne_zero ?_
        rintro rfl
        have here : (i + (0 + 1)) * size = i * size + size := by ring
        omega
      exact ih (i + 1) (by rw [next]; exact beyond) last
    · rfl

theorem toInt_of_small {v : UInt32} (small : v.toNat < 2 ^ 31) : toInt v = v.toNat :=
  if_pos small

theorem decodeArrayEvents_inside (field : Field) (currentdata : Nat)
    (fits : currentdata + sizeofLength + (todword (data.drop currentdata)).toNat ≤ data.length)
    (small : data.length < 2 ^ 31) :
    (decodeArrayEvents cb data field currentdata).Inside data.length := by
  unfold decodeArrayEvents
  simp only
  cases field.type with
  | integer =>
    simp only
    by_cases none_ : (todword (data.drop currentdata)).toNat < 1
    · rw [if_pos none_]
      exact inside_stop (by simp)
    · rw [if_neg none_]
      have four : sizeofLength = 4 := rfl
      apply reads_inside (by omega)
      split_ifs
      · exact inside_stop (by simp)
      · refine valueEvents_inside _ _ _ _ _ _ ?_
        omega
      · exact inside_stop (by simp)
      · refine valueEvents_inside _ _ _ _ _ _ ?_
        omega
      · exact inside_stop (by simp)
  | boolean =>
    refine valueEvents_inside _ _ _ _ _ _ ?_
    omega
  | string =>
    refine decodeArrayObjectEvents_inside _ _ _ _ _ ?_
    rw [toInt_of_small (by omega)]
    push_cast
    omega
  | struct =>
    refine decodeArrayObjectEvents_inside _ _ _ _ _ ?_
    rw [toInt_of_small (by omega)]
    push_cast
    omega

theorem fieldEvents_inside (field : Field) (currentdata : Nat)
    (fits : currentdata + sizeofLength + (todword (data.drop currentdata)).toNat ≤ data.length)
    (small : data.length < 2 ^ 31) :
    (fieldEvents cb data field currentdata).Inside data.length := by
  unfold fieldEvents
  split_ifs with array
  · exact decodeArrayEvents_inside field currentdata fits small
  · simp only
    cases field.type with
    | integer =>
      simp only
      split_ifs with four eight
      · rw [four] at fits
        exact reads_inside fits passQword_inside
      · exact inside_stop (by simp)
      · rw [not_not.mp eight] at fits
        exact reads_inside fits passQword_inside
    | boolean => exact inside_stop (by simp)
    | string =>
      simp only
      rw [toInt_of_small (by omega)]
      exact passSlice_inside (by omega) (by push_cast; omega)
    | struct =>
      simp only
      rw [toInt_of_small (by omega)]
      exact passSlice_inside (by omega) (by push_cast; omega)

end Pskynet.Sproto
