import Pskynet.Gate.Run

set_option autoImplicit false

namespace Pskynet.Gate

def header (style : HeaderStyle) (n : Nat) : List UInt8 :=
  match style with
  | .S => [UInt8.ofNat (n / 2 ^ 8), UInt8.ofNat n]
  | .L => [UInt8.ofNat (n / 2 ^ 24), UInt8.ofNat (n / 2 ^ 16), UInt8.ofNat (n / 2 ^ 8), UInt8.ofNat n]

def frame (style : HeaderStyle) (body : List UInt8) : List UInt8 := header style body.length ++ body

def Fits (style : HeaderStyle) (body : List UInt8) : Prop :=
  body.length < 2 ^ 24 ∧ body.length < 256 ^ style.size

instance (style : HeaderStyle) (body : List UInt8) : Decidable (Fits style body) :=
  inferInstanceAs (Decidable (_ ∧ _))

def Unfinished (style : HeaderStyle) (rest : List UInt8) : Prop :=
  ∃ body, Fits style body ∧ rest <+: frame style body ∧ rest.length < (frame style body).length

theorem length_header (style : HeaderStyle) (n : Nat) : (header style n).length = style.size := by
  cases style <;> rfl

theorem declaredSize_S (a b : UInt8) : (declaredSize .S [a, b]).toNat = a.toNat * 2 ^ 8 + b.toNat := by
  have low := b.toNat_lt
  have high := Words.toNat_shiftLeft_byte a 8 (by decide)
  have joined := Words.toNat_or_disjoint 8 (a.toUInt32 <<< 8) b.toUInt32
    (by rw [high]; exact Nat.dvd_mul_left _ _) (by rw [UInt8.toNat_toUInt32]; omega)
  rw [high, UInt8.toNat_toUInt32] at joined
  exact joined

theorem declaredSize_L (a b c d : UInt8) : (declaredSize .L [a, b, c, d]).toNat =
    a.toNat * 2 ^ 24 + b.toNat * 2 ^ 16 + c.toNat * 2 ^ 8 + d.toNat :=
  Words.toNat_four_bytes a b c d

theorem declared_header (style : HeaderStyle) (n : Nat) (fits : n < 256 ^ style.size) :
    declared style (header style n) = n := by
  rw [declared, ← length_header style n, List.take_length]
  cases style with
  | S =>
      have bound : n < 256 ^ 2 := fits
      rw [header, declaredSize_S]
      simp only [UInt8.toNat_ofNat']
      omega
  | L =>
      have bound : n < 256 ^ 4 := fits
      rw [header, declaredSize_L]
      simp only [UInt8.toNat_ofNat']
      omega

variable {style : HeaderStyle}

theorem Unfinished.part {rest : List UInt8} (unfinished : Unfinished style rest) :
    Framing.next (format style) rest = none ∧ ¬Oversized style rest := by
  obtain ⟨body, ⟨small, fits⟩, front, less⟩ := unfinished
  have length := length_header style body.length
  have size := declared_header style body.length fits
  rw [frame, List.length_append, length] at less
  by_cases short : rest.length < style.size
  · exact ⟨next_short style rest short, fun oversized => absurd oversized.1 (by omega)⟩
  · obtain ⟨more, same⟩ := front
    have whole : rest = header style body.length ++ rest.drop style.size := by
      have taken := congrArg (List.take style.size) same
      rw [List.take_append_of_le_length (by omega), frame, ← length, List.take_left, length] at taken
      rw [← taken, List.take_append_drop]
    have left : (rest.drop style.size).length < body.length := by
      rw [List.length_drop]
      omega
    rw [whole]
    refine ⟨next_part _ length (by rw [size]; exact left), fun oversized => ?_⟩
    have large := oversized.2
    rw [declared_append _ _ _ length, size] at large
    omega

theorem split_frames (frames : List (List UInt8)) (rest : List UInt8)
    (fits : ∀ body ∈ frames, Fits style body) (unfinished : Unfinished style rest) :
    Framing.split (format style) (frames.flatMap (frame style) ++ rest) = (frames, rest) := by
  have packets := Framing.split_packets (format style) frames (fun body => header style body.length)
    (fun body => body) (fun body _ => length_header style body.length)
    (fun body inside => by
      have size := declared_header style body.length (fits body inside).2
      show (if _ ∧ _ then some _ else none) = _
      rw [size, if_pos ⟨length_header style body.length, (fits body inside).1⟩]) rest
  have bodies : frames.map (fun body => body) = frames := List.map_id frames
  rw [Framing.split_none _ _ unfinished.part.1, bodies, List.append_nil] at packets
  exact packets

theorem Rests.unread_eq {db : Databuffer} {bytes : List UInt8} (rests : Rests style db bytes) :
    db.unread = bytes ∨ db.unread = bytes.drop style.size := by
  cases rests with
  | header _ _ _ => exact .inl rfl
  | body _ head length _ _ _ => exact .inr (by rw [← length, List.drop_left])
  | oversized _ head length _ _ => exact .inr (by rw [← length, List.drop_left])

theorem Rests.size_eq {db : Databuffer} {bytes : List UInt8} (rests : Rests style db bytes)
    (small : ¬Oversized style bytes) : db.size.toInt = db.unread.length := by
  cases rests with
  | header counted _ _ => rw [counted.size, Int32.toInt_ofNat_of_lt counted.small]
  | body counted _ _ _ _ _ => rw [counted.size, Int32.toInt_ofNat_of_lt counted.small]
  | oversized _ head length _ large =>
      refine absurd ⟨by rw [List.length_append]; omega, ?_⟩ small
      rw [declared_append _ _ _ length]
      exact large

def Served (s : Session) : Input → Prop
  | .receive _ => receiver s.gate s.connection ≠ none
  | .forward _ _ => True
  | .broker _ => True

instance (s : Session) : (input : Input) → Decidable (Served s input)
  | .receive _ => inferInstanceAs (Decidable (receiver s.gate s.connection ≠ none))
  | .forward _ _ => .isTrue trivial
  | .broker _ => .isTrue trivial

theorem Served.heard {s : Session} {input : Input} (served : Served s input) : Heard s input := by
  cases input with
  | receive _ => exact .inl served
  | forward _ _ => trivial
  | broker _ => trivial

theorem heard_of_served {s : Session} {inputs : List Input}
    (served : Transition.Along step Served s inputs) : Transition.Along step Heard s inputs := by
  induction inputs generalizing s with
  | nil => trivial
  | cons input inputs ih =>
      obtain ⟨allow, later⟩ := served
      refine ⟨allow.heard, ?_⟩
      cases taken : step s input with
      | none => trivial
      | some next =>
          rw [taken] at later
          exact ih later

theorem frames_forwarded (g : Gate) (id : Int) (inputs : List Input) (frames : List (List UInt8))
    (rest : List UInt8) (served : Transition.Along step Served (start g id) inputs)
    (fits : ∀ body ∈ frames, Fits g.style body) (unfinished : Unfinished g.style rest)
    (received : stream inputs = frames.flatMap (frame g.style) ++ rest) :
    ∃ s, Transition.run step (start g id) inputs = some s ∧
      s.outputs.map Output.body = (frames.filter (· ≠ [])).map some ∧
      s.connection.buffer.size.toInt = s.connection.buffer.unread.length ∧
      (s.connection.buffer.unread = rest ∨ s.connection.buffer.unread = rest.drop g.style.size) := by
  have split := split_frames frames rest fits unfinished
  have small := unfinished.part.2
  obtain ⟨s, ran, style, rests, outputs⟩ := run_reads inputs (start_reads g id)
    (heard_of_served served) (by
      show ¬Oversized g.style (Framing.split (format g.style) ([] ++ stream inputs)).2
      rw [List.nil_append, received, split]
      exact small)
  have same : s.gate.style = g.style := style
  rw [same, List.nil_append, received, split] at rests outputs
  exact ⟨s, ran, outputs, rests.size_eq small, rests.unread_eq⟩

theorem frames_forwarded_cut :
    ∃ s, Transition.run step (start ⟨0, 7, 3, .S⟩ 5)
        [.receive ⟨[0], by decide, by decide⟩, .receive ⟨[2, 65], by decide, by decide⟩,
          .receive ⟨[66, 0, 0, 0], by decide, by decide⟩] = some s ∧
      s.outputs.map Output.body = ([[65, 66], []].filter (· ≠ [])).map some ∧
      s.connection.buffer.size.toInt = s.connection.buffer.unread.length ∧
      (s.connection.buffer.unread = [0] ∨
        s.connection.buffer.unread = ([0] : List UInt8).drop HeaderStyle.S.size) :=
  frames_forwarded ⟨0, 7, 3, .S⟩ 5 _ [[65, 66], []] [0] (by decide) (by decide)
    ⟨[], by decide, by decide, by decide⟩ (by decide)

-- In every state of the run, with the input that comes next: a header with too large a length has
-- the connection closed, nothing behind it is passed on, and the buffer keeps its bound.
structure EndsAt (g : Gate) (id : Int) (before : List Input) (s : Session) : Prop where
  closes : Oversized g.style (Framing.split (format g.style) (stream before)).2 →
    .close id ∈ s.outputs
  silent : Oversized g.style (Framing.split (format g.style) (stream before)).2 →
    s.outputs.filterMap Output.body <+:
      filled (Framing.split (format g.style) (stream before)).1
  bounded (chunk : Chunk) :
    (databufferPush s.connection.buffer chunk.bytes).unread.length ≤ 2 ^ 24 + chunk.bytes.length

def EndsOversized (g : Gate) (id : Int) (inputs : List Input) : Prop :=
  ∀ before later, inputs = before ++ later →
    ∃ s, Transition.run step (start g id) before = some s ∧ EndsAt g id before s

theorem stream_append (before later : List Input) :
    stream (before ++ later) = stream before ++ stream later := List.flatMap_append

theorem Rests.length_le {style : HeaderStyle} {db : Databuffer} {bytes : List UInt8}
    (rests : Rests style db bytes) (small : ¬Oversized style bytes) :
    db.unread.length ≤ 2 ^ 24 := by
  have bound := style.size_le
  cases rests with
  | header _ _ short => omega
  | body _ _ _ _ limit short => omega
  | oversized _ head length _ large =>
      refine absurd ⟨by rw [List.length_append]; omega, ?_⟩ small
      rw [declared_append _ _ _ length]
      exact large

variable {s : Session} {bytes : List UInt8}

theorem endsAt_of_small (g : Gate) (id : Int) (before : List Input)
    (heard : Transition.Along step Heard (start g id) before)
    (small : ¬Oversized g.style (Framing.split (format g.style) (stream before)).2) :
    ∃ s, Transition.run step (start g id) before = some s ∧ EndsAt g id before s := by
  obtain ⟨s, ran, style, rests, -⟩ := run_reads before (start_reads g id) heard small
  have same : s.gate.style = g.style := style
  rw [same, List.nil_append] at rests
  refine ⟨s, ran, fun oversized => absurd oversized small, fun oversized => absurd oversized small,
    fun chunk => ?_⟩
  have length := rests.length_le small
  rw [unread_push _ _ rests.sized.placed, List.length_append]
  omega

theorem length_rest_le {style : HeaderStyle} {db : Databuffer} (rests : Rests style db bytes)
    (small : ¬Oversized style bytes) (chunk : List UInt8)
    (oversized : Oversized style (Framing.split (format style) (bytes ++ chunk)).2) :
    (Framing.split (format style) (bytes ++ chunk)).2.length ≤ 4 + chunk.length := by
  have bound := style.size_le
  cases rests with
  | header _ _ short =>
      have less := Framing.length_split (format style) (db.unread ++ chunk)
      rw [List.length_append] at less
      omega
  | body _ head length _ limit short =>
      rw [List.append_assoc] at oversized ⊢
      by_cases whole : declared style head ≤ db.unread.length + chunk.length
      · have found := next_whole (db.unread ++ chunk) length limit
          (by rw [List.length_append]; exact whole)
        have less := Framing.length_split (format style)
          ((db.unread ++ chunk).drop (declared style head))
        rw [List.length_drop, List.length_append] at less
        rw [Framing.split_some _ _ _ _ found]
        show (Framing.split _ _).2.length ≤ _
        omega
      · have part := next_part (db.unread ++ chunk) length (by rw [List.length_append]; omega)
        rw [Framing.split_none _ _ part] at oversized
        have large := oversized.2
        rw [declared_append _ _ _ length] at large
        omega
  | oversized _ head length _ large =>
      refine absurd ⟨by rw [List.length_append]; omega, ?_⟩ small
      rw [declared_append _ _ _ length]
      exact large

theorem no_close (reads : Reads s bytes) (input : Input) (heard : Heard s input)
    (before : ¬Oversized s.gate.style (Framing.split (format s.gate.style) bytes).2)
    (oversized : Oversized s.gate.style
      (Framing.split (format s.gate.style) (bytes ++ input.bytes)).2) :
    ∃ t, step s input = some t ∧ ∀ id, .close id ∉ t.outputs := by
  cases input with
  | receive chunk =>
      obtain ⟨d, ran, outcome⟩ := dispatch_rests _ reads.rests chunk
      have received := (reads.rests.heard_iff chunk).mp heard
      obtain ⟨-, ends, ended, outputs⟩ := outcome.splits received
      have split := Framing.split_append (format s.gate.style) bytes chunk.bytes
      rw [Input.bytes, split] at oversized
      have less := length_rest_le reads.rests before chunk.bytes oversized
      have fits := chunk.fits
      refine ⟨s.after d, ran, fun id inside => ?_⟩
      cases ended with
      | closed _ large whole =>
          have limit := large.2
          omega
      | waiting rests =>
          have bodies : (s.after d).outputs.map Output.body =
              (filled (Framing.split (format s.gate.style) bytes).1 ++
                filled (Framing.split (format s.gate.style)
                  ((Framing.split (format s.gate.style) bytes).2 ++ chunk.bytes)).1).map some := by
            show (s.outputs ++ d.outputs).map Output.body = _
            rw [List.map_append, List.map_append, reads.outputs, outputs, List.append_nil,
              sends_body received]
          have none_ : none ∈ (s.after d).outputs.map Output.body :=
            List.mem_map.mpr ⟨_, inside, rfl⟩
          rw [bodies] at none_
          simp at none_
  | forward _ _ =>
      rw [Input.bytes, List.append_nil] at oversized
      exact absurd oversized before
  | broker _ =>
      rw [Input.bytes, List.append_nil] at oversized
      exact absurd oversized before

theorem first_prefix {α : Type} (holds : List α → Prop) (start : ¬holds []) (all : List α)
    (reached : holds all) :
    ∃ before a later, all = before ++ a :: later ∧ ¬holds before ∧ holds (before ++ [a]) := by
  induction all using List.reverseRecOn with
  | nil => exact absurd reached start
  | append_singleton front a ih =>
      by_cases earlier : holds front
      · obtain ⟨before, b, later, same, rest⟩ := ih earlier
        exact ⟨before, b, later ++ [a], by rw [same, List.append_assoc, List.cons_append], rest⟩
      · exact ⟨front, a, [], rfl, earlier, reached⟩

theorem ends_oversized_iff (g : Gate) (id : Int) (inputs : List Input)
    (heard : Transition.Along step Heard (start g id) inputs) :
    EndsOversized g id inputs ↔
      ¬Oversized g.style (Framing.split (format g.style) (stream inputs)).2 := by
  constructor
  · intro ends oversized
    have nothing : ¬Oversized g.style (Framing.split (format g.style) (stream [])).2 := by
      intro large
      have rests := (start_reads g id).rests
      have less := Framing.length_split (format g.style) (stream [])
      have size := g.style.size_pos
      have enough := large.1
      have empty : (stream []).length = 0 := rfl
      omega
    obtain ⟨before, input, later, rfl, small, large⟩ := first_prefix
      (fun front => Oversized g.style (Framing.split (format g.style) (stream front)).2)
      nothing inputs oversized
    obtain ⟨s, ran, style, reads⟩ := run_reads before (start_reads g id) (heard.front) small
    have same : s.gate.style = g.style := style
    rw [List.nil_append] at reads
    have added : stream (before ++ [input]) = stream before ++ input.bytes := by
      rw [stream_append]
      exact congrArg _ (List.append_nil _)
    obtain ⟨t, taken, unasked⟩ := no_close reads input (heard.last before input later ran)
      (by rw [same]; exact small) (by rw [same, ← added]; exact large)
    obtain ⟨u, reached, at_⟩ := ends (before ++ [input]) later (by simp)
    have stepped : Transition.run step (start g id) (before ++ [input]) = some t := by
      rw [Transition.run_append, ran]
      simp only [Option.bind_some, Transition.run, taken]
    obtain rfl := Option.some.inj (stepped.symm.trans reached)
    exact unasked id (at_.closes large)
  · intro small before later same
    refine endsAt_of_small g id before ?_ fun oversized => small ?_
    · rw [same] at heard
      exact heard.front
    · rw [same, stream_append]
      exact oversized_later _ oversized

theorem ends_oversized_small :
    EndsOversized ⟨0, 7, 3, .L⟩ 5 [.receive ⟨[0, 0, 0, 1, 65], by decide, by decide⟩] ↔
      ¬Oversized .L (Framing.split (format .L) (stream
        [.receive ⟨[0, 0, 0, 1, 65], by decide, by decide⟩])).2 :=
  ends_oversized_iff ⟨0, 7, 3, .L⟩ 5 _ ⟨.inl (by decide), trivial⟩

-- A length with the top bit is a negative `int`, and the connection is not closed.
theorem top_bit_stays :
    ¬EndsOversized ⟨0, 7, 3, .L⟩ 5 [.receive ⟨[0x80, 0, 0, 0], by decide, by decide⟩] := by
  intro ends
  obtain ⟨s, reached, at_⟩ := ends _ [] (List.append_nil _).symm
  have stopped : Framing.split (format .L) (stream
      [.receive ⟨[0x80, 0, 0, 0], by decide, by decide⟩]) = ([], [0x80, 0, 0, 0]) :=
    Framing.split_none _ _ (next_of_oversized (by decide))
  have closes := at_.closes
  rw [stopped] at closes
  obtain rfl := Option.some.inj reached
  exact absurd (closes (by decide)) (by decide)

end Pskynet.Gate
