import Pskynet.Sproto.Bounds

set_option autoImplicit false

namespace Pskynet.Sproto

-- `size` bytes that are filled by elements, each behind its length.
inductive WholeElements (data : List UInt8) : Nat → Nat → Prop where
  | done (stream : Nat) : WholeElements data stream 0
  | element (stream rest : Nat)
      (later : WholeElements data (stream + sizeofLength + (todword (data.drop stream)).toNat) rest) :
      WholeElements data stream (sizeofLength + (todword (data.drop stream)).toNat + rest)

def WholeIntegers (data : List UInt8) (currentdata : Nat) : Prop :=
  let sz := (todword (data.drop currentdata)).toNat
  let len := data.getD (currentdata + sizeofLength) 0
  1 ≤ sz ∧ (len = 4 ∧ (sz - 1) % 4 = 0 ∨ len = 8 ∧ (sz - 1) % 8 = 0)

def Accepted (data : List UInt8) (field : Field) (currentdata : Nat) : Prop :=
  let sz := (todword (data.drop currentdata)).toNat
  match field.array, field.type with
  | true, .integer => WholeIntegers data currentdata
  | true, .boolean => True
  | true, _ => WholeElements data (currentdata + sizeofLength) sz
  | false, .integer => sz = 4 ∨ sz = 8
  | false, .boolean => False
  | false, _ => True

def Wraps (sz : UInt32) : Prop := 2 ^ 32 - sizeofLength ≤ sz.toNat

def RefusedLength (data : List UInt8) (field : Field) (currentdata : Nat) : Prop :=
  match field.array, field.type with
  | true, .integer =>
      currentdata + sizeofLength < data.length ∧ ¬WholeIntegers data currentdata
  | false, .integer | false, .boolean => True
  | _, _ => False

def ProperRecords (data : List UInt8) (st : SprotoType) : List Nat → Int → Nat → Prop
  | [], _, _ => True
  | value :: words, tag, datastream =>
      let tag := tag + 1
      if value % 2 = 1 then ProperRecords data st words (tag + (value / 2 : Nat)) datastream
      else if value = 0 then
        let sz := todword (data.drop datastream)
        datastream + sizeofLength ≤ data.length →
          (Wraps sz → ∃ field, findtag st tag = some field ∧ RefusedLength data field datastream) ∧
          (datastream + sizeofLength + sz.toNat ≤ data.length →
            (∀ field, findtag st tag = some field → Accepted data field datastream) →
              ProperRecords data st words tag (datastream + sizeofLength + sz.toNat))
      else
        (∀ field, findtag st tag = some field →
          field.array = false ∧ (field.type = .integer ∨ field.type = .boolean)) →
          ProperRecords data st words tag datastream

def ProperLengths (st : SprotoType) (data : List UInt8) : Prop :=
  let fn := toword data
  let words := (List.range fn).map fun i => toword (data.drop (sizeofHeader + i * sizeofField))
  sizeofHeader + fn * sizeofField ≤ data.length →
    ProperRecords data st words (-1) (sizeofHeader + fn * sizeofField)

variable {data : List UInt8} {cb : SprotoArg → Bool}

theorem Turn.andThen_none {first second : Turn} :
    (first.andThen second).2 = none ↔ first.2 = none ∧ second.2 = none := by
  obtain ⟨events, ending⟩ := first
  cases ending <;> simp [Turn.andThen]

theorem reads_none {start size : Nat} {turn : Turn} :
    (reads data start size turn).2 = none ↔ start + size ≤ data.length ∧ turn.2 = none := by
  unfold reads
  split_ifs with fits <;> simp [fits]

theorem valueEvents_none (field : Field) (stream size : Nat) (value : Nat → UInt64) (i count : Nat)
    (fits : stream + (i + count) * size ≤ data.length) :
    (valueEvents data field stream size value i count).2 = none := by
  induction count generalizing i with
  | zero => rfl
  | succ count ih =>
    unfold valueEvents
    have next : (i + 1 + count) * size = (i + (count + 1)) * size := by ring
    have here : (i + (count + 1)) * size = i * size + size + count * size := by ring
    refine Turn.andThen_none.mpr ⟨reads_none.mpr ⟨by omega, rfl⟩, ih (i + 1) ?_⟩
    rw [next]
    exact fits

theorem decodeArrayObjectEvents_whole (field : Field) (turns index stream : Nat) (sz : Nat)
    (enough : sz < turns)
    (through : (decodeArrayObjectEvents cb data field turns index stream sz).2 = none) :
    WholeElements data stream sz := by
  have four : sizeofLength = 4 := rfl
  induction turns generalizing index stream sz with
  | zero => omega
  | succ turns ih =>
    unfold decodeArrayObjectEvents at through
    by_cases more : (0 : Int) < sz
    · rw [if_pos more] at through
      by_cases short : (sz : Int) < sizeofLength
      · rw [if_pos short] at through
        cases through
      · rw [if_neg short] at through
        obtain ⟨_, through⟩ := reads_none.mp through
        by_cases long : (sz : Int) - sizeofLength < (todword (data.drop stream)).toNat
        · rw [if_pos long] at through
          cases through
        · rw [if_neg long] at through
          obtain ⟨_, later⟩ := Turn.andThen_none.mp through
          obtain ⟨rest, whole⟩ : ∃ rest,
              sz = sizeofLength + (todword (data.drop stream)).toNat + rest :=
            ⟨sz - sizeofLength - (todword (data.drop stream)).toNat, by omega⟩
          have left : (sz : Int) - sizeofLength - (todword (data.drop stream)).toNat = rest := by
            omega
          rw [left] at later
          rw [whole]
          exact .element stream rest (ih _ _ rest (by omega) later)
    · obtain rfl : sz = 0 := by omega
      exact .done stream

theorem WholeElements.decoded {stream sz : Nat} (whole : WholeElements data stream sz)
    (fits : stream + sz ≤ data.length) (field : Field) (turns index : Nat) (enough : sz < turns) :
    (decodeArrayObjectEvents (fun _ => false) data field turns index stream sz).2 = none := by
  have four : sizeofLength = 4 := rfl
  induction whole generalizing turns index with
  | done stream =>
    obtain ⟨turns, rfl⟩ := Nat.exists_eq_add_one.mpr enough
    unfold decodeArrayObjectEvents
    rw [if_neg (by simp)]
  | element stream rest later ih =>
    obtain ⟨turns, rfl⟩ := Nat.exists_eq_add_one.mpr (Nat.lt_of_le_of_lt (Nat.zero_le _) enough)
    unfold decodeArrayObjectEvents
    rw [if_pos (by omega), if_neg (by omega)]
    refine reads_none.mpr ⟨by omega, ?_⟩
    simp only
    rw [if_neg (by omega)]
    refine Turn.andThen_none.mpr ⟨Turn.andThen_none.mpr ⟨rfl, rfl⟩, ?_⟩
    have left : ((sizeofLength + (todword (data.drop stream)).toNat + rest : Nat) : Int) -
        sizeofLength - (todword (data.drop stream)).toNat = rest := by omega
    rw [left]
    exact ih (by omega) turns (index + 1) (by omega)

theorem decodeArrayEvents_accepted (field : Field) (currentdata : Nat) (array : field.array = true)
    (fits : currentdata + sizeofLength + (todword (data.drop currentdata)).toNat ≤ data.length)
    (small : data.length < 2 ^ 31)
    (through : (decodeArrayEvents cb data field currentdata).2 = none) :
    Accepted data field currentdata := by
  unfold decodeArrayEvents at through
  unfold Accepted
  rw [array]
  simp only at through ⊢
  have narrow : toInt (todword (data.drop currentdata)) =
      (todword (data.drop currentdata)).toNat := toInt_of_small (by omega)
  cases type : field.type with
  | integer =>
    rw [type] at through
    simp only at through ⊢
    unfold WholeIntegers
    by_cases none_ : (todword (data.drop currentdata)).toNat < 1
    · rw [if_pos none_] at through
      cases through
    · rw [if_neg none_] at through
      have through := (reads_none.mp through).2
      refine ⟨by omega, ?_⟩
      split_ifs at through with four odd eight odd
      · exact .inl ⟨four, not_not.mp odd⟩
      · exact .inr ⟨eight, not_not.mp odd⟩
  | boolean => trivial
  | string =>
    rw [type, narrow] at through
    exact decodeArrayObjectEvents_whole field _ 1 _ _ (by simp) through
  | struct =>
    rw [type, narrow] at through
    exact decodeArrayObjectEvents_whole field _ 1 _ _ (by simp) through

theorem fieldEvents_accepted (field : Field) (currentdata : Nat)
    (fits : currentdata + sizeofLength + (todword (data.drop currentdata)).toNat ≤ data.length)
    (small : data.length < 2 ^ 31)
    (through : (fieldEvents cb data field currentdata).2 = none) :
    Accepted data field currentdata := by
  unfold fieldEvents at through
  by_cases array : field.array = true
  · rw [if_pos array] at through
    exact decodeArrayEvents_accepted field currentdata array fits small through
  · rw [if_neg array] at through
    unfold Accepted
    rw [Bool.eq_false_of_not_eq_true array]
    cases type : field.type with
    | integer =>
      rw [type] at through
      simp only at through ⊢
      split_ifs at through with four eight
      · exact .inl (by rw [four]; rfl)
      · exact .inr (by rw [not_not.mp eight]; rfl)
    | boolean =>
      rw [type] at through
      cases through
    | string => trivial
    | struct => trivial

theorem Accepted.decoded {field : Field} {currentdata : Nat}
    (accepted : Accepted data field currentdata)
    (fits : currentdata + sizeofLength + (todword (data.drop currentdata)).toNat ≤ data.length)
    (small : data.length < 2 ^ 31) :
    (fieldEvents (fun _ => false) data field currentdata).2 = none := by
  have narrow : toInt (todword (data.drop currentdata)) =
      (todword (data.drop currentdata)).toNat := toInt_of_small (by omega)
  have four : sizeofLength = 4 := rfl
  unfold Accepted at accepted
  unfold fieldEvents
  by_cases array : field.array = true
  · rw [if_pos array]
    rw [array] at accepted
    unfold decodeArrayEvents
    cases type : field.type with
    | integer =>
      rw [type] at accepted
      obtain ⟨least, sizes⟩ := accepted
      simp only
      rw [if_neg (by omega)]
      refine reads_none.mpr ⟨by omega, ?_⟩
      rcases sizes with ⟨len, whole⟩ | ⟨len, whole⟩
      · rw [if_pos len, if_neg (not_not.mpr whole)]
        exact valueEvents_none _ _ _ _ _ _ (by omega)
      · rw [if_neg (by rw [len]; decide), if_pos len, if_neg (not_not.mpr whole)]
        exact valueEvents_none _ _ _ _ _ _ (by omega)
    | boolean => exact valueEvents_none _ _ _ _ _ _ (by omega)
    | string =>
      rw [type] at accepted
      simp only [narrow]
      exact accepted.decoded fits field _ 1 (by simp)
    | struct =>
      rw [type] at accepted
      simp only [narrow]
      exact accepted.decoded fits field _ 1 (by simp)
  · rw [if_neg array]
    rw [Bool.eq_false_of_not_eq_true array] at accepted
    cases type : field.type with
    | integer =>
      rw [type] at accepted
      simp only
      rcases accepted with is | is
      · rw [if_pos (UInt32.toNat_inj.mp is)]
        exact reads_none.mpr ⟨by omega, rfl⟩
      · have eight : todword (data.drop currentdata) = 8 := UInt32.toNat_inj.mp is
        rw [eight, if_neg (by decide), if_neg (by decide)]
        exact reads_none.mpr ⟨by omega, rfl⟩
    | boolean =>
      rw [type] at accepted
      exact accepted.elim
    | string => rfl
    | struct => rfl

theorem RefusedLength.refused {field : Field} {currentdata : Nat}
    (refused : RefusedLength data field currentdata)
    (wraps : Wraps (todword (data.drop currentdata))) :
    fieldEvents cb data field currentdata = ([], some .refused) := by
  unfold RefusedLength at refused
  unfold fieldEvents
  by_cases array : field.array = true
  · rw [if_pos array]
    rw [array] at refused
    unfold decodeArrayEvents
    cases type : field.type with
    | integer =>
      rw [type] at refused
      obtain ⟨inside, not_whole⟩ := refused
      unfold WholeIntegers at not_whole
      simp only at not_whole ⊢
      unfold Wraps at wraps
      have four : sizeofLength = 4 := rfl
      have least : 1 ≤ (todword (data.drop currentdata)).toNat := by omega
      rw [if_neg (by omega)]
      unfold reads
      rw [if_pos (by omega)]
      split_ifs with len odd len odd
      · rfl
      · exact absurd ⟨least, .inl ⟨len, not_not.mp odd⟩⟩ not_whole
      · rfl
      · exact absurd ⟨least, .inr ⟨len, not_not.mp odd⟩⟩ not_whole
      · rfl
    | boolean =>
      rw [type] at refused
      exact refused.elim
    | string =>
      rw [type] at refused
      exact refused.elim
    | struct =>
      rw [type] at refused
      exact refused.elim
  · rw [if_neg array]
    rw [Bool.eq_false_of_not_eq_true array] at refused
    unfold Wraps at wraps
    cases type : field.type with
    | integer =>
      simp only
      rw [if_neg, if_pos]
      · intro is
        rw [is] at wraps
        revert wraps
        decide
      · intro is
        rw [is] at wraps
        revert wraps
        decide
    | boolean => rfl
    | string =>
      rw [type] at refused
      exact refused.elim
    | struct =>
      rw [type] at refused
      exact refused.elim

theorem fieldEvents_wraps (field : Field) (currentdata : Nat)
    (small : data.length < 2 ^ 31)
    (wraps : Wraps (todword (data.drop currentdata)))
    (taken : ¬RefusedLength data field currentdata) :
    (fieldEvents (fun _ => false) data field currentdata).2 = none ∨
      ¬(fieldEvents (fun _ => false) data field currentdata).Inside data.length := by
  have four : sizeofLength = 4 := rfl
  unfold Wraps at wraps
  have negative : toInt (todword (data.drop currentdata)) < 0 := by
    have bound := (todword (data.drop currentdata)).toNat_lt
    unfold toInt
    rw [if_neg (by omega)]
    omega
  unfold RefusedLength at taken
  unfold fieldEvents
  by_cases array : field.array = true
  · rw [if_pos array]
    rw [array] at taken
    unfold decodeArrayEvents
    cases type : field.type with
    | integer =>
      rw [type] at taken
      simp only at taken ⊢
      rw [if_neg (by omega)]
      refine .inr fun fine => fine.reads ?_
      unfold reads
      by_cases within : currentdata + sizeofLength + 1 ≤ data.length
      · rw [if_pos within]
        have whole : WholeIntegers data currentdata := by
          by_contra not_whole
          exact taken ⟨by omega, not_whole⟩
        obtain ⟨least, sizes⟩ := whole
        rcases sizes with ⟨len, whole⟩ | ⟨len, whole⟩
        · rw [if_pos len, if_neg (not_not.mpr whole)]
          exact valueEvents_outside _ _ _ _ _ _ (by omega) (by omega)
        · rw [if_neg (by rw [len]; decide), if_pos len, if_neg (not_not.mpr whole)]
          exact valueEvents_outside _ _ _ _ _ _ (by omega) (by omega)
      · rw [if_neg within]
    | boolean =>
      refine .inr fun fine => fine.reads ?_
      exact valueEvents_outside _ _ _ _ _ _ (by omega) (by omega)
    | string =>
      simp only
      unfold decodeArrayObjectEvents
      rw [if_neg (by omega)]
      exact .inl rfl
    | struct =>
      simp only
      unfold decodeArrayObjectEvents
      rw [if_neg (by omega)]
      exact .inl rfl
  · rw [if_neg array]
    rw [Bool.eq_false_of_not_eq_true array] at taken
    cases type : field.type with
    | integer =>
      rw [type] at taken
      exact absurd trivial taken
    | boolean =>
      rw [type] at taken
      exact absurd trivial taken
    | string => exact .inl rfl
    | struct => exact .inl rfl

section Records

variable (st : SprotoType) (words : List Nat) (tag : Int) (datastream : Nat) (size : Int)

theorem recordEvents_stopped (room : ¬size < sizeofLength)
    (fits : ¬size < (todword (data.drop datastream) + 4).toNat) (events : List Event) (why : Ending)
    (turn : fieldTurn cb data st (tag + 1) datastream = (events, some why)) :
    recordEvents cb data st (0 :: words) tag datastream size = (events, .stop why) := by
  unfold recordEvents
  simp only
  rw [if_neg (by decide), if_pos (by decide), if_neg room, if_neg fits, turn]

theorem recordEvents_past (room : ¬size < sizeofLength)
    (fits : ¬size < (todword (data.drop datastream) + 4).toNat)
    (through : (fieldTurn cb data st (tag + 1) datastream).2 = none) :
    recordEvents cb data st (0 :: words) tag datastream size =
      ((fieldTurn cb data st (tag + 1) datastream).1 ++
        .past datastream (todword (data.drop datastream)).toNat size ::
        (recordEvents cb data st words (tag + 1)
          (datastream + (todword (data.drop datastream) + 4).toNat)
          (size - (todword (data.drop datastream) + 4).toNat)).1,
        (recordEvents cb data st words (tag + 1)
          (datastream + (todword (data.drop datastream) + 4).toNat)
          (size - (todword (data.drop datastream) + 4).toNat)).2) := by
  obtain ⟨events, turn⟩ : ∃ events,
      fieldTurn cb data st (tag + 1) datastream = (events, none) :=
    ⟨_, Prod.ext rfl through⟩
  rw [turn]
  rw [recordEvents]
  simp only
  rw [if_neg (by decide), if_pos (by decide), if_neg room, if_neg fits, turn]

end Records

theorem stays_stopped {total : Nat} {events : List Event} {why : Ending}
    (inside : Turn.Inside total (events, some why)) : Stays total (events, .stop why) where
  inside := inside.inside
  reads := fun is => inside.reads (congrArg some (Outcome.stop.inj is))
  consumed := fun _ is => by cases is

theorem stays_past {total : Nat} {events later : List Event} {event : Event} {outcome : Outcome} :
    Stays total (events ++ event :: later, outcome) ↔
      (∀ event ∈ events, event.Inside total) ∧ event.Inside total ∧ Stays total (later, outcome) := by
  constructor
  · rintro ⟨inside, reads, consumed⟩
    refine ⟨fun event member => inside event (by simp [member]), inside event (by simp), ?_⟩
    exact ⟨fun event member => inside event (by simp [member]), reads, consumed⟩
  · rintro ⟨before, here, ⟨inside, reads, consumed⟩⟩
    refine ⟨?_, reads, consumed⟩
    intro event member
    rcases List.mem_append.mp member with old | new_
    · exact before event old
    · rcases List.mem_cons.mp new_ with rfl | new_
      · exact here
      · exact inside event new_

theorem step_of_wraps {sz : UInt32} (wraps : Wraps sz) : (sz + 4).toNat < 4 := by
  have bound := sz.toNat_lt
  unfold Wraps sizeofLength at wraps
  rw [UInt32.toNat_add]
  have four : (4 : UInt32).toNat = 4 := rfl
  omega

theorem step_of_not_wraps {sz : UInt32} (low : ¬Wraps sz) : (sz + 4).toNat = sizeofLength + sz.toNat := by
  have bound := sz.toNat_lt
  unfold Wraps sizeofLength at low
  rw [UInt32.toNat_add]
  have four : (4 : UInt32).toNat = 4 := rfl
  unfold sizeofLength
  omega

theorem fieldTurn_inside (st : SprotoType) (tag : Int) (datastream : Nat)
    (fits : datastream + sizeofLength + (todword (data.drop datastream)).toNat ≤ data.length)
    (small : data.length < 2 ^ 31) : (fieldTurn cb data st tag datastream).Inside data.length := by
  unfold fieldTurn
  cases findtag st tag with
  | none => exact inside_nothing
  | some field => exact fieldEvents_inside field datastream fits small

theorem recordEvents_stays (st : SprotoType) (words : List Nat) (tag : Int) (datastream : Nat)
    (size : Int) (small : data.length < 2 ^ 31) (left : datastream + size = data.length)
    (least : 0 ≤ size) (proper : ProperRecords data st words tag datastream) :
    Stays data.length (recordEvents cb data st words tag datastream size) := by
  have four : sizeofLength = 4 := rfl
  induction words generalizing tag datastream size with
  | nil =>
    refine ⟨fun _ member => (by cases member), fun is => (by cases is), ?_⟩
    intro n returned
    have is : (data.length : Int) - size = n := Outcome.returned.inj returned
    omega
  | cons value words ih =>
    unfold ProperRecords at proper
    by_cases skip : value % 2 = 1
    · rw [if_pos skip] at proper
      unfold recordEvents
      rw [if_pos skip]
      exact ih _ _ _ left least proper
    · rw [if_neg skip] at proper
      by_cases inData : value = 0
      · subst inData
        rw [if_pos rfl] at proper
        by_cases room : size < sizeofLength
        · unfold recordEvents
          simp only
          rw [if_neg skip, if_pos (by decide), if_pos room]
          exact stays_stopped (inside_stop (by simp))
        · obtain ⟨only, on⟩ := proper (by omega)
          by_cases wraps : Wraps (todword (data.drop datastream))
          · obtain ⟨field, found, refused⟩ := only wraps
            have step := step_of_wraps wraps
            have turn : fieldTurn cb data st (tag + 1) datastream = ([], some .refused) := by
              unfold fieldTurn
              rw [found]
              exact refused.refused wraps
            rw [recordEvents_stopped st words tag datastream size room (by omega) _ _ turn]
            exact stays_stopped (inside_stop (by simp))
          · have step := step_of_not_wraps wraps
            by_cases fits : size < (todword (data.drop datastream) + 4).toNat
            · unfold recordEvents
              simp only
              rw [if_neg skip, if_pos (by decide), if_neg room, if_pos fits]
              exact stays_stopped (inside_stop (by simp))
            · have whole : datastream + sizeofLength + (todword (data.drop datastream)).toNat ≤
                  data.length := by omega
              have inside := @fieldTurn_inside data cb st (tag + 1) datastream whole small
              cases ending : (fieldTurn cb data st (tag + 1) datastream).2 with
              | some why =>
                have turn : fieldTurn cb data st (tag + 1) datastream =
                    ((fieldTurn cb data st (tag + 1) datastream).1, some why) := Prod.ext rfl ending
                rw [recordEvents_stopped st words tag datastream size room fits _ _ turn]
                rw [turn] at inside
                exact stays_stopped inside
              | none =>
                rw [recordEvents_past st words tag datastream size room fits ending]
                refine stays_past.mpr ⟨inside.inside, ⟨by omega, by omega⟩, ?_⟩
                have accepted : ∀ field, findtag st (tag + 1) = some field →
                    Accepted data field datastream := by
                  intro field found
                  unfold fieldTurn at ending
                  rw [found] at ending
                  exact fieldEvents_accepted field datastream whole small ending
                refine ih _ _ _ (by omega) (by omega) ?_
                rw [step, ← Nat.add_assoc]
                exact on whole accepted
      · rw [if_neg inData] at proper
        unfold recordEvents
        simp only
        rw [if_neg skip, if_neg (by omega)]
        cases found : findtag st (tag + 1) with
        | none => exact ih _ _ _ left least (proper (by simp [found]))
        | some field =>
          simp only
          by_cases refused : field.array = true ∨ field.type ≠ .integer ∧ field.type ≠ .boolean
          · rw [if_pos refused]
            exact stays_stopped (inside_stop (by simp))
          · rw [if_neg refused]
            have kind : field.array = false ∧ (field.type = .integer ∨ field.type = .boolean) := by
              refine ⟨Bool.eq_false_of_not_eq_true fun is => refused (.inl is), ?_⟩
              by_contra neither
              exact refused (.inr (not_or.mp neither))
            have later := ih (tag + 1) datastream size left least <| proper <| by
              intro other same
              rw [found] at same
              rw [← Option.some.inj same]
              exact kind
            have nothing : ∀ event ∈ ([] : List Event), event.Inside data.length := by simp
            have here : Event.Inside data.length
                (.arg ⟨field, 0, .qword (UInt64.ofNat ((value / 2 : Nat) - 1 : Int).toNat)⟩) :=
              trivial
            exact stays_past.mpr ⟨nothing, here, later⟩

theorem taken_or_outside (st : SprotoType) (tag : Int) (datastream : Nat)
    (small : data.length < 2 ^ 31) (wraps : Wraps (todword (data.drop datastream)))
    (taken : ¬∃ field, findtag st tag = some field ∧ RefusedLength data field datastream) :
    (fieldTurn (fun _ => false) data st tag datastream).2 = none ∨
      ¬(fieldTurn (fun _ => false) data st tag datastream).Inside data.length := by
  unfold fieldTurn
  cases found : findtag st tag with
  | none => exact .inl rfl
  | some field =>
    exact fieldEvents_wraps field datastream small wraps fun refused => taken ⟨field, found, refused⟩

theorem Stays.turn {total : Nat} {events : List Event} {why : Ending}
    (stays : Stays total (events, .stop why)) : Turn.Inside total (events, some why) where
  inside := stays.inside
  reads := fun is => stays.reads (congrArg Outcome.stop (Option.some.inj is))

theorem proper_of_stays (st : SprotoType) (words : List Nat) (tag : Int) (datastream : Nat)
    (size : Int) (small : data.length < 2 ^ 31) (left : datastream + size = data.length)
    (stays : Stays data.length (recordEvents (fun _ => false) data st words tag datastream size)) :
    ProperRecords data st words tag datastream := by
  have four : sizeofLength = 4 := rfl
  induction words generalizing tag datastream size with
  | nil => trivial
  | cons value words ih =>
    unfold ProperRecords
    by_cases skip : value % 2 = 1
    · rw [if_pos skip]
      unfold recordEvents at stays
      rw [if_pos skip] at stays
      exact ih _ _ _ left stays
    · rw [if_neg skip]
      by_cases inData : value = 0
      · subst inData
        rw [if_pos rfl]
        simp only
        intro inside
        have room : ¬size < sizeofLength := by omega
        constructor
        · intro wraps
          by_contra taken
          have step := step_of_wraps wraps
          have fits : ¬size < (todword (data.drop datastream) + 4).toNat := by omega
          unfold Wraps at wraps
          rcases taken_or_outside st (tag + 1) datastream small wraps taken with through | outside
          · rw [recordEvents_past st words tag datastream size room fits through] at stays
            have past := (stays_past.mp stays).2.1.1
            omega
          · cases ending : (fieldTurn (fun _ => false) data st (tag + 1) datastream).2 with
            | none =>
              rw [recordEvents_past st words tag datastream size room fits ending] at stays
              have past := (stays_past.mp stays).2.1.1
              omega
            | some why =>
              have turn : fieldTurn (fun _ => false) data st (tag + 1) datastream =
                  ((fieldTurn (fun _ => false) data st (tag + 1) datastream).1, some why) :=
                Prod.ext rfl ending
              rw [recordEvents_stopped st words tag datastream size room fits _ _ turn] at stays
              rw [turn] at outside
              exact outside stays.turn
        · intro whole accepted
          have low : ¬Wraps (todword (data.drop datastream)) := by
            unfold Wraps
            omega
          have step := step_of_not_wraps low
          have through : (fieldTurn (fun _ => false) data st (tag + 1) datastream).2 = none := by
            unfold fieldTurn
            cases found : findtag st (tag + 1) with
            | none => rfl
            | some field => exact (accepted field found).decoded whole small
          rw [recordEvents_past st words tag datastream size room (by omega) through] at stays
          have later := ih _ _ _ (by omega) (stays_past.mp stays).2.2
          rw [step, ← Nat.add_assoc] at later
          exact later
      · rw [if_neg inData]
        intro kind
        unfold recordEvents at stays
        simp only at stays
        rw [if_neg skip, if_neg (by omega)] at stays
        cases found : findtag st (tag + 1) with
        | none =>
          rw [found] at stays
          exact ih _ _ _ left stays
        | some field =>
          rw [found] at stays
          simp only at stays
          obtain ⟨single, type⟩ := kind field found
          have passed : ¬(field.array = true ∨ field.type ≠ .integer ∧ field.type ≠ .boolean) := by
            rintro (array | ⟨integer, boolean⟩)
            · rw [single] at array
              cases array
            · rcases type with is | is
              · exact integer is
              · exact boolean is
          rw [if_neg passed] at stays
          have nothing := (@stays_past _ [] _ _ _).mp stays
          exact ih _ _ _ left nothing.2.2

theorem decodesInside_iff (st : SprotoType) (data : List UInt8) (small : data.length < 2 ^ 31) :
    DecodesInside st data ↔ ProperLengths st data := by
  have header : sizeofHeader = 2 := rfl
  constructor
  · intro inside
    have stays := inside fun _ => false
    intro whole
    unfold sprotoDecodeEvents at stays
    rw [if_neg (by omega)] at stays
    simp only at stays
    rw [if_neg (by omega)] at stays
    exact proper_of_stays st _ (-1) _ _ small (by omega) stays
  · intro proper cb
    unfold sprotoDecodeEvents
    by_cases none_ : data.length < sizeofHeader
    · rw [if_pos none_]
      exact stays_stopped (inside_stop (by simp))
    · rw [if_neg none_]
      simp only
      by_cases short : data.length - sizeofHeader < toword data * sizeofField
      · rw [if_pos short]
        exact stays_stopped (inside_stop (by simp))
      · rw [if_neg short]
        exact recordEvents_stays st _ (-1) _ _ small (by omega) (by omega) (proper (by omega))

def named : SprotoType := importType [⟨0, .string, false, [110], 0, none⟩]

theorem decodesInside_named :
    [1, 0, 0, 0, 1, 0, 0, 0, 65].length < 2 ^ 31 ∧
      DecodesInside named [1, 0, 0, 0, 1, 0, 0, 0, 65] := by
  refine ⟨by decide, (decodesInside_iff named _ (by decide)).mpr fun _ => ?_⟩
  show ProperRecords _ named [0] (-1) 4
  intro _
  refine ⟨fun wraps => absurd wraps (by unfold Wraps; decide), ?_⟩
  intro _ _
  trivial

-- A string of length `2 ^ 32 - 4` behind which nothing is left: the callback gets -4 bytes.
theorem huge_string_passed : ¬DecodesInside named [1, 0, 0, 0, 0xfc, 0xff, 0xff, 0xff] := by
  intro inside
  have done : sprotoDecodeEvents (fun _ => false) [1, 0, 0, 0, 0xfc, 0xff, 0xff, 0xff] named =
      ([.arg ⟨⟨0, .string, false, [110], 0, none⟩, 0, .slice 8 (-4)⟩, .past 4 0xfffffffc 4],
        .returned 4) := rfl
  have stays := inside fun _ => false
  rw [done] at stays
  have slice := stays.inside _ (List.mem_cons_self ..)
  exact absurd slice.1 (by decide)

end Pskynet.Sproto
