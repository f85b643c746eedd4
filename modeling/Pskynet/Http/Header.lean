import Pskynet.Http.Internal

set_option autoImplicit false

namespace Pskynet.Http

open Lua
open Search (FirstAt)

def reach (n : Nat) : Nat → Reader → Nat
  | held, [] => held
  | held, piece :: pieces =>
    if n ≤ held + piece.length then held + piece.length else reach n (held + piece.length) pieces

def headerLength (stream : List UInt8) : Nat :=
  if crlf <+: stream then 2
  else
    match Search.find blankLine stream with
    | some e => e + 4
    | none => stream.length

structure Agree (stream : List UInt8) (one two : Except Stop Head) : Prop where
  accepts : (∃ head, one = .ok head) ↔ ∃ head, two = .ok head
  same : ∀ head other, one = .ok head → two = .ok other →
    head.lines = other.lines ∧ head.body ++ head.unread.flatten = other.body ++ other.unread.flatten
  limited : (one = .error .refused ↔ limit < headerLength stream) ∧
    (two = .error .refused ↔ limit < headerLength stream)

def CutsFit (stream : List UInt8) (pieces others : Reader) : Prop :=
  if crlf <+: stream then
    reach 2 0 pieces ≤ limit ∧ reach 2 0 others ≤ limit ∧ ∀ e, FirstAt blankLine stream e →
      (e + 4 ≤ reach 2 0 pieces ↔ e + 4 ≤ reach 2 0 others)
  else
    ∀ e, FirstAt blankLine stream e → e + 4 ≤ limit →
      reach (e + 4) 0 pieces ≤ limit ∧ reach (e + 4) 0 others ≤ limit

section

variable {stream header : List UInt8} {pieces : Reader}

theorem le_reach (n held : Nat) (pieces : Reader) : held ≤ reach n held pieces := by
  induction pieces generalizing held with
  | nil => exact Nat.le_refl held
  | cons piece pieces ih =>
    unfold reach
    split_ifs
    · exact Nat.le_add_right _ _
    · exact le_trans (Nat.le_add_right _ _) (ih _)

theorem blankLine_ne_nil : blankLine ≠ [] := List.cons_ne_nil _ _

theorem blankLine_cons {c : UInt8} {text : List UInt8} (inside : blankLine <:+: c :: text) :
    crlf <+: c :: text ∨ blankLine <:+: text := by
  rcases List.infix_cons_iff.mp inside with first | later
  · exact .inl ((List.prefix_append crlf crlf).trans first)
  · exact .inr later

theorem headerLines_append {line text : List UInt8}
    (ends : (line = [] ∧ crlf <+: text) ∨ blankLine <:+: text) (rest : List UInt8) :
    headerLines line (text ++ rest) = headerLines line text := by
  fun_induction headerLines line text with
  | case1 text => rfl
  | case2 line text filled ih =>
    have later : headerLines [] (text ++ rest) = headerLines [] text := by
      refine ih ?_
      rcases ends with ⟨empty, -⟩ | inside
      · exact absurd empty filled
      · rcases List.infix_cons_iff.mp inside with first | inside
        · exact .inl ⟨rfl, (List.cons_prefix_cons.mp (List.cons_prefix_cons.mp first).2).2⟩
        · rcases blankLine_cons inside with first | inside
          · exact absurd (List.cons_prefix_cons.mp first).1 (by decide)
          · exact .inr inside
    change (if line = [] then [] else line :: headerLines [] (text ++ rest)) = _
    rw [if_neg filled, later]
  | case3 line c text plain ih =>
    have inside : blankLine <:+: text := by
      have broken : ¬crlf <+: c :: text := by
        intro first
        obtain ⟨rfl, second⟩ := List.cons_prefix_cons.mp first
        obtain ⟨behind, rfl⟩ := second
        exact plain behind rfl rfl
      rcases ends with ⟨-, first⟩ | inside
      · exact absurd first broken
      · exact (blankLine_cons inside).resolve_left broken
    rw [List.cons_append, headerLines, ih (.inr inside)]
    intro behind return_ newline
    cases text with
    | nil => exact absurd (List.eq_nil_of_infix_nil inside) blankLine_ne_nil
    | cons d text => exact plain text return_ (congrArg (· :: text) (List.cons.inj newline).1)
  | case4 line =>
    rcases ends with ⟨-, first⟩ | inside
    · exact absurd (List.eq_nil_of_prefix_nil first) (by decide)
    · exact absurd (List.eq_nil_of_infix_nil inside) blankLine_ne_nil

theorem headerLines_empty {text : List UInt8} (first : crlf <+: text) : headerLines [] text = [] := by
  obtain ⟨rest, rfl⟩ := first
  rfl

theorem find_window {bytes : List UInt8} (apart : ¬blankLine <:+: header) :
    find (header ++ bytes) blankLine (-bytes.length - 3) =
      Search.find blankLine (header ++ bytes) := by
  have init : -(bytes.length : Int) - 3 = -((bytes.length + 3 : Nat) : Int) := by omega
  have length : (header ++ bytes).length = header.length + bytes.length := List.length_append
  rw [init, find_last _ _ (Nat.succ_pos _)]
  refine Search.find_behind blankLine_ne_nil apart bytes ?_
  change _ + 4 ≤ _ ∨ _
  omega

theorem reach_le {n held : Nat} (pieces : Reader) (enough : n ≤ held + pieces.flatten.length) :
    n ≤ reach n held pieces := by
  induction pieces generalizing held with
  | nil => exact enough
  | cons piece pieces ih =>
    unfold reach
    split_ifs with complete
    · exact complete
    · refine ih ?_
      rw [List.flatten_cons, List.length_append] at enough
      omega

theorem reach_le_total (n held : Nat) (pieces : Reader) :
    reach n held pieces ≤ held + pieces.flatten.length := by
  induction pieces generalizing held with
  | nil => exact Nat.le_refl held
  | cons piece pieces ih =>
    have later := ih (held + piece.length)
    unfold reach
    rw [List.flatten_cons, List.length_append]
    split_ifs <;> omega

def Reads (stream : List UInt8) (lines : List (List UInt8)) (n : Nat) (outcome : Except Stop Head) :
    Prop :=
  ∃ head, outcome = .ok head ∧ head.lines = lines ∧
    head.body ++ head.unread.flatten = stream.drop n

theorem Reads.ok {lines : List (List UInt8)} {n : Nat}
    (whole : header ++ pieces.flatten = stream) (inside : n ≤ header.length) :
    Reads stream lines n (.ok ⟨lines, header.drop n, pieces⟩) := by
  refine ⟨_, rfl, rfl, ?_⟩
  change header.drop n ++ pieces.flatten = _
  rw [← whole, List.drop_append_of_le_length inside]

theorem recvheaderLoop_cons {bytes : List UInt8} (apart : ¬blankLine <:+: header) :
    recvheaderLoop header (bytes :: pieces) =
      if limit < (header ++ bytes).length then .error .refused
      else
        match Search.find blankLine (header ++ bytes) with
        | some e =>
          .ok ⟨headerLines [] (header ++ bytes), (header ++ bytes).drop (e + 4), pieces⟩
        | none =>
          if crlf <+: header ++ bytes then .ok ⟨[], (header ++ bytes).drop 2, pieces⟩
          else recvheaderLoop (header ++ bytes) pieces := by
  rw [← find_window apart]
  rfl

theorem recvheaderLoop_found (header : List UInt8) (pieces : Reader) {e : Nat}
    (plain : ¬crlf <+: stream) (first : FirstAt blankLine stream e)
    (whole : header ++ pieces.flatten = stream)
    (short : header.length < e + 4) :
    if reach (e + 4) header.length pieces ≤ limit then
      Reads stream (headerLines [] stream) (e + 4) (recvheaderLoop header pieces)
    else recvheaderLoop header pieces = .error .refused := by
  induction pieces generalizing header with
  | nil =>
    have inside : e + 4 ≤ stream.length := first.length_le blankLine_ne_nil
    rw [← whole, List.flatten_nil, List.append_nil] at inside
    omega
  | cons bytes pieces ih =>
    have apart : ¬blankLine <:+: header := (whole ▸ first).not_infix_front short
    rw [List.flatten_cons, ← List.append_assoc] at whole
    rw [recvheaderLoop_cons apart, reach, ← List.length_append]
    by_cases complete : e + 4 ≤ (header ++ bytes).length
    · have front : FirstAt blankLine (header ++ bytes) e := (whole ▸ first).front complete
      rw [if_pos complete, (Search.find_some_iff blankLine_ne_nil _ _).mpr front]
      by_cases fits : (header ++ bytes).length ≤ limit
      · have lines : headerLines [] (header ++ bytes) = headerLines [] stream := by
          rw [← whole, headerLines_append (.inr front.infix)]
        rw [if_pos fits, if_neg (Nat.not_lt.mpr fits), lines]
        exact .ok whole complete
      · rw [if_neg fits, if_pos (Nat.lt_of_not_le fits)]
    · rw [if_neg complete]
      by_cases fits : (header ++ bytes).length ≤ limit
      · have apart : ¬blankLine <:+: header ++ bytes :=
          (whole ▸ first).not_infix_front (Nat.lt_of_not_le complete)
        have plain : ¬crlf <+: header ++ bytes := fun here =>
          plain (here.trans (whole ▸ List.prefix_append _ _))
        rw [if_neg (Nat.not_lt.mpr fits), (Search.find_none_iff blankLine_ne_nil _).mpr apart]
        simp only [if_neg plain]
        exact ih _ whole (Nat.lt_of_not_le complete)
      · have far := le_reach (e + 4) (header ++ bytes).length pieces
        rw [if_neg (by omega), if_pos (Nat.lt_of_not_le fits)]

theorem recvheaderLoop_none (header : List UInt8) (pieces : Reader)
    (plain : ¬crlf <+: stream) (never : ¬blankLine <:+: stream)
    (whole : header ++ pieces.flatten = stream) (fits : header.length ≤ limit) :
    recvheaderLoop header pieces =
      .error (if limit < stream.length then .refused else .waits) := by
  induction pieces generalizing header with
  | nil =>
    rw [List.flatten_nil, List.append_nil] at whole
    rw [recvheaderLoop, if_neg (by rw [← whole]; omega)]
  | cons bytes pieces ih =>
    have apart : ¬blankLine <:+: header := fun here =>
      never (here.trans (whole ▸ (List.prefix_append _ _).isInfix))
    rw [List.flatten_cons, ← List.append_assoc] at whole
    rw [recvheaderLoop_cons apart]
    have front : header ++ bytes <+: stream := whole ▸ List.prefix_append _ _
    by_cases fits : (header ++ bytes).length ≤ limit
    · have apart : ¬blankLine <:+: header ++ bytes := fun here => never (here.trans front.isInfix)
      have plain : ¬crlf <+: header ++ bytes := fun here => plain (here.trans front)
      rw [if_neg (Nat.not_lt.mpr fits), (Search.find_none_iff blankLine_ne_nil _).mpr apart]
      simp only [if_neg plain]
      exact ih _ whole fits
    · have length := front.length_le
      rw [if_pos (Nat.lt_of_not_le fits), if_pos (by omega)]

def leadingLength (stream : List UInt8) (place : Nat) : Nat :=
  match Search.find blankLine stream with
  | some e => if e + 4 ≤ place then e + 4 else 2
  | none => 2

theorem leadingLength_found {e place : Nat} (first : FirstAt blankLine stream e) :
    leadingLength stream place = if e + 4 ≤ place then e + 4 else 2 := by
  rw [leadingLength, (Search.find_some_iff blankLine_ne_nil _ _).mpr first]

theorem leadingLength_none {place : Nat}
    (never : ∀ e, FirstAt blankLine stream e → place < e + 4) : leadingLength stream place = 2 := by
  unfold leadingLength
  cases here : Search.find blankLine stream with
  | none => rfl
  | some e =>
    have far := never e ((Search.find_some_iff blankLine_ne_nil _ _).mp here)
    exact if_neg (Nat.not_le.mpr far)

theorem recvheaderLoop_leading (header : List UInt8) (pieces : Reader) (lead : crlf <+: stream)
    (whole : header ++ pieces.flatten = stream) (short : header.length < 2) :
    if reach 2 header.length pieces ≤ limit then
      Reads stream [] (leadingLength stream (reach 2 header.length pieces))
        (recvheaderLoop header pieces)
    else recvheaderLoop header pieces = .error .refused := by
  induction pieces generalizing header with
  | nil =>
    have inside : 2 ≤ stream.length := lead.length_le
    rw [← whole, List.flatten_nil, List.append_nil] at inside
    omega
  | cons bytes pieces ih =>
    have apart : ¬blankLine <:+: header := fun here => by
      have inside : 4 ≤ header.length := here.length_le
      omega
    rw [List.flatten_cons, ← List.append_assoc] at whole
    rw [recvheaderLoop_cons apart, reach, ← List.length_append]
    have front : header ++ bytes <+: stream := whole ▸ List.prefix_append _ _
    by_cases complete : 2 ≤ (header ++ bytes).length
    · have lead : crlf <+: header ++ bytes := List.prefix_of_prefix_length_le lead front complete
      rw [if_pos complete]
      by_cases fits : (header ++ bytes).length ≤ limit
      · rw [if_pos fits, if_neg (Nat.not_lt.mpr fits)]
        cases found : Search.find blankLine (header ++ bytes) with
        | some e =>
          have first := (Search.find_some_iff blankLine_ne_nil _ _).mp found
          have inside : e + 4 ≤ (header ++ bytes).length := first.length_le blankLine_ne_nil
          have start : leadingLength stream (header ++ bytes).length = e + 4 := by
            rw [leadingLength_found (whole ▸ first.append blankLine_ne_nil _), if_pos inside]
          rw [start]
          simp only [headerLines_empty lead]
          exact .ok whole inside
        | none =>
          have apart := (Search.find_none_iff blankLine_ne_nil _).mp found
          have start : leadingLength stream (header ++ bytes).length = 2 := by
            refine leadingLength_none fun e first => ?_
            by_contra inside
            have front := FirstAt.front (whole ▸ first) (Nat.not_lt.mp inside)
            exact apart front.infix
          rw [start]
          simp only [if_pos lead]
          exact .ok whole complete
      · rw [if_neg fits, if_pos (Nat.lt_of_not_le fits)]
    · rw [if_neg complete]
      have fits : ¬limit < (header ++ bytes).length := by
        unfold limit
        omega
      have apart : ¬blankLine <:+: header ++ bytes := fun here => by
        have inside : 4 ≤ (header ++ bytes).length := here.length_le
        omega
      have plain : ¬crlf <+: header ++ bytes := fun here => complete here.length_le
      rw [if_neg fits, (Search.find_none_iff blankLine_ne_nil _).mpr apart]
      simp only [if_neg plain]
      exact ih _ whole (Nat.lt_of_not_le complete)

theorem Reads.agree {lines : List (List UInt8)} {n : Nat} {one two : Except Stop Head}
    (first : Reads stream lines n one) (second : Reads stream lines n two)
    (fits : headerLength stream ≤ limit) : Agree stream one two := by
  obtain ⟨head, rfl, lines_, body⟩ := first
  obtain ⟨other, rfl, otherLines, otherBody⟩ := second
  have within : ¬limit < headerLength stream := Nat.not_lt.mpr fits
  constructor
  · exact ⟨fun _ => ⟨other, rfl⟩, fun _ => ⟨head, rfl⟩⟩
  · intro head other one two
    cases one
    cases two
    exact ⟨lines_.trans otherLines.symm, body.trans otherBody.symm⟩
  · exact ⟨⟨nofun, fun beyond => absurd beyond within⟩, nofun, fun beyond => absurd beyond within⟩

theorem agree_refused (beyond : limit < headerLength stream) :
    Agree stream (.error .refused) (.error .refused) :=
  ⟨Iff.rfl, nofun, iff_of_true rfl beyond, iff_of_true rfl beyond⟩

theorem leading_iff {others : Reader} (lead : crlf <+: stream) (one : pieces.flatten = stream)
    (two : others.flatten = stream) :
    Agree stream (recvheader pieces []) (recvheader others []) ↔
      reach 2 0 pieces ≤ limit ∧ reach 2 0 others ≤ limit ∧ ∀ e, FirstAt blankLine stream e →
        (e + 4 ≤ reach 2 0 pieces ↔ e + 4 ≤ reach 2 0 others) := by
  have fits : headerLength stream ≤ limit := by
    rw [headerLength, if_pos lead]
    decide
  have first := recvheaderLoop_leading [] pieces lead one (Nat.succ_pos 1)
  have second := recvheaderLoop_leading [] others lead two (Nat.succ_pos 1)
  rw [List.length_nil] at first second
  change Agree stream (recvheaderLoop [] pieces) (recvheaderLoop [] others) ↔ _
  constructor
  · intro agree
    have near : reach 2 0 pieces ≤ limit := by
      by_contra far
      rw [if_neg far] at first
      exact absurd (agree.limited.1.mp first) (Nat.not_lt.mpr fits)
    have otherNear : reach 2 0 others ≤ limit := by
      by_contra far
      rw [if_neg far] at second
      exact absurd (agree.limited.2.mp second) (Nat.not_lt.mpr fits)
    refine ⟨near, otherNear, fun e blank => ?_⟩
    rw [if_pos near] at first
    rw [if_pos otherNear] at second
    obtain ⟨head, one, -, body⟩ := first
    obtain ⟨other, two, -, otherBody⟩ := second
    have starts := congrArg List.length (agree.same head other one two).2
    have inside : e + 4 ≤ stream.length := blank.length_le blankLine_ne_nil
    rw [body, otherBody, leadingLength_found blank, leadingLength_found blank, List.length_drop,
      List.length_drop] at starts
    split_ifs at starts <;> omega
  · rintro ⟨near, otherNear, cuts⟩
    rw [if_pos near] at first
    rw [if_pos otherNear] at second
    have starts : leadingLength stream (reach 2 0 others) =
        leadingLength stream (reach 2 0 pieces) := by
      unfold leadingLength
      cases found : Search.find blankLine stream with
      | none => rfl
      | some e => simp only [cuts e ((Search.find_some_iff blankLine_ne_nil _ _).mp found)]
    rw [starts] at second
    exact first.agree second fits

theorem found_iff {others : Reader} {e : Nat} (plain : ¬crlf <+: stream)
    (blank : FirstAt blankLine stream e) (one : pieces.flatten = stream)
    (two : others.flatten = stream) :
    Agree stream (recvheader pieces []) (recvheader others []) ↔
      (e + 4 ≤ limit → reach (e + 4) 0 pieces ≤ limit ∧ reach (e + 4) 0 others ≤ limit) := by
  have length : headerLength stream = e + 4 := by
    rw [headerLength, if_neg plain, (Search.find_some_iff blankLine_ne_nil _ _).mpr blank]
  have inside : e + 4 ≤ stream.length := blank.length_le blankLine_ne_nil
  have first := recvheaderLoop_found [] pieces plain blank one (Nat.succ_pos _)
  have second := recvheaderLoop_found [] others plain blank two (Nat.succ_pos _)
  rw [List.length_nil] at first second
  change Agree stream (recvheaderLoop [] pieces) (recvheaderLoop [] others) ↔ _
  constructor
  · intro agree fits
    have within : ¬limit < headerLength stream := Nat.not_lt.mpr (length ▸ fits)
    constructor
    · by_contra far
      rw [if_neg far] at first
      exact within (agree.limited.1.mp first)
    · by_contra far
      rw [if_neg far] at second
      exact within (agree.limited.2.mp second)
  · intro cuts
    by_cases fits : e + 4 ≤ limit
    · obtain ⟨near, otherNear⟩ := cuts fits
      rw [if_pos near] at first
      rw [if_pos otherNear] at second
      exact first.agree second (length ▸ fits)
    · have far : e + 4 ≤ reach (e + 4) 0 pieces := reach_le pieces (by rw [one]; omega)
      have otherFar : e + 4 ≤ reach (e + 4) 0 others := reach_le others (by rw [two]; omega)
      rw [if_neg (by omega)] at first second
      rw [first, second]
      exact agree_refused (by omega)

theorem agree_of_none {others : Reader} (plain : ¬crlf <+: stream) (never : ¬blankLine <:+: stream)
    (one : pieces.flatten = stream) (two : others.flatten = stream) :
    Agree stream (recvheader pieces []) (recvheader others []) := by
  have length : headerLength stream = stream.length := by
    rw [headerLength, if_neg plain, (Search.find_none_iff blankLine_ne_nil _).mpr never]
  have first := recvheaderLoop_none [] pieces plain never one (Nat.zero_le _)
  have second := recvheaderLoop_none [] others plain never two (Nat.zero_le _)
  change Agree stream (recvheaderLoop [] pieces) (recvheaderLoop [] others)
  rw [first, second]
  by_cases beyond : limit < stream.length
  · rw [if_pos beyond]
    exact agree_refused (by omega)
  · rw [if_neg beyond]
    have within : ¬limit < headerLength stream := length ▸ beyond
    exact ⟨Iff.rfl, nofun, iff_of_false nofun within, iff_of_false nofun within⟩

theorem cutsFit_of_short {others : Reader} (plain : ¬crlf <+: stream)
    (one : pieces.flatten = stream) (two : others.flatten = stream)
    (short : stream.length ≤ limit) : CutsFit stream pieces others := by
  unfold CutsFit
  rw [if_neg plain]
  intro e _ _
  have near := reach_le_total (e + 4) 0 pieces
  have otherNear := reach_le_total (e + 4) 0 others
  rw [one] at near
  rw [two] at otherNear
  omega

theorem header_iff (pieces others : Reader) (same : pieces.flatten = others.flatten) :
    Agree pieces.flatten (recvheader pieces []) (recvheader others []) ↔
      CutsFit pieces.flatten pieces others := by
  generalize whole : pieces.flatten = stream at same ⊢
  unfold CutsFit
  split_ifs with lead
  · exact leading_iff lead whole same.symm
  · by_cases ends : blankLine <:+: stream
    · obtain ⟨e, blank⟩ := Search.exists_firstAt ends
      rw [found_iff lead blank whole same.symm]
      refine ⟨fun cuts other otherBlank => ?_, fun cuts => cuts e blank⟩
      exact blank.unique otherBlank ▸ cuts
    · refine iff_of_true (agree_of_none lead ends whole same.symm) fun e blank => ?_
      exact absurd blank.infix ends

theorem request_cut :
    Agree [71, 13, 10, 13, 10, 65] (recvheader [[71, 13], [10, 13, 10, 65]] [])
      (recvheader [[71, 13, 10, 13], [10, 65]] []) :=
  (header_iff [[71, 13], [10, 13, 10, 65]] [[71, 13, 10, 13], [10, 65]] rfl).mpr
    (cutsFit_of_short (by decide) rfl rfl (by decide))

theorem cuts_disagree :
    ¬∀ pieces others : Reader, [] ∉ pieces → [] ∉ others → pieces.flatten = others.flatten →
      Agree pieces.flatten (recvheader pieces []) (recvheader others []) := by
  intro always
  have empty_line := always [[13, 10, 71, 13, 10, 13, 10]] [[13, 10], [71, 13, 10, 13, 10]]
    (by decide) (by decide) rfl
  have bodies := (empty_line.same ⟨[], [], []⟩ ⟨[], [], [[71, 13, 10, 13, 10]]⟩ (by decide)
    (by decide)).2
  exact absurd bodies (by decide)

theorem body_counted {front body : List UInt8} {e : Nat} (plain : ¬crlf <+: front ++ body)
    (blank : FirstAt blankLine (front ++ body) e) (ends : front.length = e + 4)
    (fits : front.length ≤ limit) (beyond : limit < (front ++ body).length) :
    recvheader [front ++ body] [] = .error .refused ∧
      Reads (front ++ body) (headerLines [] (front ++ body)) (e + 4)
        (recvheader [front, body] []) := by
  have whole : [front ++ body].flatten = front ++ body := List.append_nil _
  have cut : [front, body].flatten = front ++ body := by
    rw [List.flatten_cons, List.flatten_cons, List.flatten_nil, List.append_nil]
  have one := recvheaderLoop_found [] [front ++ body] plain blank whole
    (Nat.succ_pos _)
  have two := recvheaderLoop_found [] [front, body] plain blank cut (Nat.succ_pos _)
  have far : ¬reach (e + 4) 0 [front ++ body] ≤ limit := by
    have length : (front ++ body).length = front.length + body.length := List.length_append
    rw [reach, if_pos (by omega), Nat.zero_add]
    exact Nat.not_le.mpr beyond
  have near : reach (e + 4) 0 [front, body] ≤ limit := by
    rw [reach, if_pos (by omega), Nat.zero_add]
    exact fits
  exact ⟨(if_neg far).mp one, (if_pos near).mp two⟩

end

end Pskynet.Http
