import Pskynet.Loginserver.Agreement

set_option autoImplicit false

namespace Pskynet.Loginserver

open Crypt Setting

inductive Stage (s : Setting) (x : Texts) :
    Nat → Server → Client → List UInt8 → List UInt8 → Prop where
  | start : Stage s x 0 .start .challenge [] []
  | challenged : Stage s x 1 .handshake .challenge [] (x.challenge ++ [10])
  | keyed : Stage s x 2 .handshake (.exchange s.challenge) (x.clientKey ++ [10]) []
  | exchanged : Stage s x 3 (.response s.secret) (.exchange s.challenge) [] (x.serverKey ++ [10])
  | responded : Stage s x 4 (.response s.secret) (.result s.secret)
      (x.response ++ [10] ++ (x.etoken ++ [10])) []
  | verified : Stage s x 5 (.token s.secret) (.result s.secret) (x.etoken ++ [10]) []
  | answered : Stage s x 6 (.done s.secret s.token) (.result s.secret) [] (x.final ++ [10])
  | finished : Stage s x 7 (.done s.secret s.token) s.verdict [] []

def At (s : Setting) (x : Texts) (n : Nat) (l : Login) : Prop :=
  Stage s x n l.server l.client l.up.rest l.down.rest

def Texts.unwritten (x : Texts) (n : Nat) : Nat :=
  ([x.challenge.length + 1, x.clientKey.length + 1, x.serverKey.length + 1,
    x.response.length + x.etoken.length + 2, 0, x.final.length + 1, 0].drop n).sum

def Texts.weight (x : Texts) (n : Nat) (l : Login) : Nat :=
  7 - n + x.unwritten n + (l.up.wire.length + l.down.wire.length)

variable {s : Setting} {x : Texts} {l next : Login}

theorem readline_wire {p q : Pipe} {line : List UInt8} (read : p.readline = some (line, q)) :
    q.wire = p.wire := by
  unfold Pipe.readline at read
  split at read
  · cases read
    rfl
  · cases read

theorem readline_line {p q : Pipe} {line text more : List UInt8}
    (read : p.readline = some (line, q)) (whole : p.rest = text ++ [10] ++ more)
    (inside : 10 ∉ text) : line = text ∧ q.rest = more := by
  rw [List.append_assoc, List.singleton_append] at whole
  exact Pipe.readline_rest read whole inside

theorem weight_next {n : Nat} (written : Nat) (few : n < 7)
    (bytes : x.unwritten n = written + x.unwritten (n + 1))
    (wires : next.up.wire.length + next.down.wire.length =
      l.up.wire.length + l.down.wire.length + written) : x.weight (n + 1) next < x.weight n l := by
  rw [Texts.weight, Texts.weight]
  omega

theorem wire_write (p : Pipe) (text : List UInt8) :
    (p.write text).wire.length = p.wire.length + text.length := List.length_append

def Advances (s : Setting) (x : Texts) (n : Nat) (l next : Login) : Prop :=
  ∃ m, At s x m next ∧ x.weight m next < x.weight n l

theorem advances_begin (exchanged : Exchanged s x) {n : Nat} (here : At s x n l)
    (taken : step s l .begin = some next) : Advances s x n l next := by
  obtain ⟨server, client, up, down⟩ := l
  simp only [At] at here
  simp only [step] at taken
  split at taken
  · rename_i starts
    rw [exchanged.begins] at taken
    obtain rfl := Option.some.inj taken
    generalize above : up.rest = unread at here
    generalize below : down.rest = unread' at here
    subst starts
    cases here
    refine ⟨1, ?_, weight_next _ (by decide) rfl ?_⟩
    · have written : (down.write (x.challenge ++ [10])).rest = x.challenge ++ [10] := by
        rw [Pipe.rest_write, below, List.nil_append]
      change Stage s x 1 .handshake .challenge up.rest (down.write (x.challenge ++ [10])).rest
      rw [written, above]
      exact .challenged
    · change up.wire.length + (down.write (x.challenge ++ [10])).wire.length = _
      rw [wire_write, List.length_append, List.length_singleton, Nat.add_assoc]
  · cases taken

theorem served_advances (exchanged : Exchanged s x) {n : Nat} (here : At s x n l)
    (taken : step s l .serve = some next) : Advances s x n l next := by
  obtain ⟨server, client, up, down⟩ := l
  simp only [At] at here
  simp only [step] at taken
  split at taken
  · obtain ⟨⟨line, later⟩, read, same⟩ := Option.map_eq_some_iff.mp taken
    have wire := readline_wire read
    generalize above : up.rest = unread at here
    generalize below : down.rest = unread' at here
    obtain ⟨challenge, clientKey, serverKey, response, etoken, final⟩ := exchanged.whole
    cases here with
    | start => contradiction
    | challenged =>
      rw [Pipe.readline_none above] at read
      cases read
    | keyed =>
      obtain ⟨rfl, nothing⟩ := Pipe.readline_rest read above clientKey
      rw [Setting.serve, exchanged.exchanged] at same
      subst same
      refine ⟨3, ?_, weight_next (x.serverKey.length + 1) (by decide) rfl ?_⟩
      · change Stage s x 3 (.response s.secret) (.exchange s.challenge) later.rest
          (down.write (x.serverKey ++ [10])).rest
        rw [nothing, Pipe.rest_write, below, List.nil_append]
        exact .exchanged
      · change later.wire.length + (down.write (x.serverKey ++ [10])).wire.length = _
        rw [wire_write, wire, List.length_append, List.length_singleton, Nat.add_assoc]
    | exchanged =>
      rw [Pipe.readline_none above] at read
      cases read
    | responded =>
      obtain ⟨rfl, more⟩ := readline_line read above response
      rw [Setting.serve, exchanged.checked] at same
      subst same
      refine ⟨5, ?_, weight_next 0 (by decide) rfl ?_⟩
      · change Stage s x 5 (.token s.secret) (.result s.secret) later.rest (down.write []).rest
        rw [more, Pipe.rest_write, below]
        exact .verified
      · change later.wire.length + (down.write []).wire.length = _
        rw [wire_write, wire]
        rfl
    | verified =>
      obtain ⟨rfl, nothing⟩ := Pipe.readline_rest read above etoken
      rw [Setting.serve, exchanged.read, Setting.tokenRead, exchanged.accepted] at same
      subst same
      have arrived : later.wire = [] := (List.append_eq_nil_iff.mp nothing).2
      refine ⟨6, ?_, weight_next (x.final.length + 1) (by decide) rfl ?_⟩
      · change Stage s x 6 (.done s.secret s.token) (.result s.secret) ([] ++ later.wire)
          (down.write (x.final ++ [10])).rest
        rw [arrived, Pipe.rest_write, below]
        exact .answered
      · change later.wire.length + (down.write (x.final ++ [10])).wire.length = _
        rw [wire_write, wire, List.length_append, List.length_singleton, Nat.add_assoc]
    | answered => contradiction
    | finished => contradiction
  · cases taken

theorem verdict_awaiting (s : Setting) : awaiting s.verdict = false := by
  unfold Setting.verdict
  split
  · rfl
  split
  · rfl
  split <;> rfl

theorem followed_advances (exchanged : Exchanged s x) {n : Nat} (here : At s x n l)
    (taken : step s l .follow = some next) : Advances s x n l next := by
  obtain ⟨server, client, up, down⟩ := l
  simp only [At] at here
  simp only [step] at taken
  split at taken
  · rename_i waits
    obtain ⟨⟨line, later⟩, read, same⟩ := Option.map_eq_some_iff.mp taken
    have wire := readline_wire read
    generalize above : up.rest = unread at here
    generalize below : down.rest = unread' at here
    obtain ⟨challenge, clientKey, serverKey, response, etoken, final⟩ := exchanged.whole
    cases here with
    | start =>
      rw [Pipe.readline_none below] at read
      cases read
    | challenged =>
      obtain ⟨rfl, nothing⟩ := Pipe.readline_rest read below challenge
      rw [Setting.follow, exchanged.answered] at same
      subst same
      refine ⟨2, ?_, weight_next (x.clientKey.length + 1) (by decide) rfl ?_⟩
      · change Stage s x 2 .handshake (.exchange s.challenge) (up.write (x.clientKey ++ [10])).rest
          later.rest
        rw [nothing, Pipe.rest_write, above, List.nil_append]
        exact .keyed
      · change (up.write (x.clientKey ++ [10])).wire.length + later.wire.length =
          up.wire.length + down.wire.length + (x.clientKey.length + 1)
        rw [wire_write, wire, List.length_append, List.length_singleton]
        omega
    | keyed =>
      rw [Pipe.readline_none below] at read
      cases read
    | exchanged =>
      obtain ⟨rfl, nothing⟩ := Pipe.readline_rest read below serverKey
      rw [Setting.follow, exchanged.responded] at same
      subst same
      refine ⟨4, ?_, weight_next (x.response.length + x.etoken.length + 2) (by decide) rfl
        ?_⟩
      · change Stage s x 4 (.response s.secret) (.result s.secret)
          (up.write (x.response ++ [10] ++ (x.etoken ++ [10]))).rest later.rest
        rw [nothing, Pipe.rest_write, above, List.nil_append]
        exact .responded
      · change (up.write (x.response ++ [10] ++ (x.etoken ++ [10]))).wire.length + later.wire.length =
          up.wire.length + down.wire.length + (x.response.length + x.etoken.length + 2)
        rw [wire_write, wire]
        simp only [List.length_append, List.length_singleton]
        omega
    | responded =>
      rw [Pipe.readline_none below] at read
      cases read
    | verified =>
      rw [Pipe.readline_none below] at read
      cases read
    | answered =>
      obtain ⟨rfl, nothing⟩ := Pipe.readline_rest read below final
      rw [Setting.follow, exchanged.told] at same
      subst same
      refine ⟨7, ?_, weight_next 0 (by decide) rfl ?_⟩
      · change Stage s x 7 (.done s.secret s.token) s.verdict (up.write []).rest later.rest
        rw [nothing, Pipe.rest_write, above]
        exact .finished
      · change (up.write []).wire.length + later.wire.length = _
        rw [wire_write, wire]
        rfl
    | finished =>
      rw [verdict_awaiting] at waits
      cases waits
  · cases taken

theorem unread_le (exchanged : Exchanged s x) {n : Nat} (here : At s x n l) :
    l.up.rest.length ≤ limit := by
  obtain ⟨server, client, up, down⟩ := l
  simp only [At] at here ⊢
  obtain ⟨key, rest⟩ := exchanged.short
  generalize up.rest = unread at here ⊢
  generalize down.rest = unread' at here
  have zero := Nat.zero_le limit
  cases here with
  | start | challenged | exchanged | answered | finished => exact zero
  | keyed =>
    rw [List.length_append]
    exact key
  | responded =>
    simp only [List.length_append, List.length_singleton]
    omega
  | verified =>
    rw [List.length_append, List.length_singleton]
    omega

theorem delivered_advances (exchanged : Exchanged s x) {n k : Nat} (here : At s x n l)
    (taken : step s l (.toServer k) = some next ∨ step s l (.toClient k) = some next) :
    Advances s x n l next := by
  have fewer (p : Pipe) (inside : 0 < k ∧ k ≤ p.wire.length) :
      (p.deliver k).wire.length + k = p.wire.length := by
    rw [Pipe.deliver, List.length_drop]
    omega
  obtain taken | taken := taken
  · simp only [step] at taken
    split at taken
    · rename_i some_
      have short := unread_le exchanged here
      have buffered : (l.up.deliver k).buffer.length ≤ limit := by
        rw [← Pipe.rest_deliver l.up k, Pipe.rest, List.length_append] at short
        omega
      rw [if_neg (by omega)] at taken
      cases taken
      refine ⟨n, ?_, ?_⟩
      · rw [At, Pipe.rest_deliver]
        exact here
      · have less := fewer l.up some_
        simp only [Texts.weight]
        omega
    · cases taken
  · simp only [step] at taken
    split at taken
    · rename_i some_
      cases taken
      refine ⟨n, ?_, ?_⟩
      · rw [At, Pipe.rest_deliver]
        exact here
      · have less := fewer l.down some_
        simp only [Texts.weight]
        omega
    · cases taken

theorem step_advances (exchanged : Exchanged s x) {n : Nat} (here : At s x n l) {action : Action}
    (taken : step s l action = some next) : Advances s x n l next := by
  cases action with
  | begin => exact advances_begin exchanged here taken
  | serve => exact served_advances exchanged here taken
  | follow => exact followed_advances exchanged here taken
  | toServer k => exact delivered_advances exchanged here (.inl taken)
  | toClient k => exact delivered_advances exchanged here (.inr taken)

def Settled (s : Setting) (l : Login) : Prop := ∀ action, step s l action = none

theorem settled_finished {n : Nat} (here : At s x n l)
    (settled : Settled s l) : l.server = .done s.secret s.token ∧ l.client = s.verdict := by
  obtain ⟨server, client, up, down⟩ := l
  simp only [At] at here ⊢
  have arrivedUp : up.wire = [] := by
    by_contra more
    have some_ : 0 < 1 ∧ 1 ≤ up.wire.length := ⟨Nat.one_pos, List.length_pos_iff.mpr more⟩
    have blocked := settled (.toServer 1)
    simp only [step, if_pos some_] at blocked
    split at blocked <;> cases blocked
  have arrivedDown : down.wire = [] := by
    by_contra more
    have some_ : 0 < 1 ∧ 1 ≤ down.wire.length := ⟨Nat.one_pos, List.length_pos_iff.mpr more⟩
    have blocked := settled (.toClient 1)
    simp only [step, if_pos some_] at blocked
    cases blocked
  have served (reads : reading server = true) : up.readline = none := by
    have blocked := settled .serve
    simpa only [step, reads, if_true, Option.map_eq_none_iff] using blocked
  have followed (waits : awaiting client = true) : down.readline = none := by
    have blocked := settled .follow
    simpa only [step, waits, if_true, Option.map_eq_none_iff] using blocked
  have begun : server ≠ .start := by
    rintro rfl
    have blocked := settled .begin
    simp only [step, if_true] at blocked
    cases blocked
  generalize above : up.rest = unread at here
  generalize below : down.rest = unread' at here
  have line {p : Pipe} {text more : List UInt8} (whole : p.rest = text ++ 10 :: more)
      (arrived : p.wire = []) : p.readline ≠ none := by
    obtain ⟨line, q, read⟩ := Pipe.readline_all whole arrived
    rw [read]
    exact Option.some_ne_none _
  cases here with
  | start => exact absurd rfl begun
  | challenged => exact absurd (followed rfl) (line below arrivedDown)
  | keyed => exact absurd (served rfl) (line above arrivedUp)
  | exchanged => exact absurd (followed rfl) (line below arrivedDown)
  | responded =>
    rw [List.append_assoc, List.singleton_append] at above
    exact absurd (served rfl) (line above arrivedUp)
  | verified => exact absurd (served rfl) (line above arrivedUp)
  | answered => exact absurd (followed rfl) (line below arrivedDown)
  | finished => exact ⟨rfl, rfl⟩

theorem run_advances (exchanged : Exchanged s x) {n : Nat} (here : At s x n l) (actions : List Action)
    (ran : Transition.run (step s) l actions = some next) :
    ∃ m, At s x m next ∧ x.weight m next + actions.length ≤ x.weight n l := by
  induction actions generalizing l n with
  | nil =>
    obtain rfl := Option.some.inj ran
    exact ⟨n, here, le_rfl⟩
  | cons action rest ih =>
    simp only [Transition.run] at ran
    split at ran
    · rename_i after taken
      obtain ⟨m, there, less⟩ := step_advances exchanged here taken
      obtain ⟨m', final, fewer⟩ := ih there ran
      refine ⟨m', final, ?_⟩
      rw [List.length_cons]
      omega
    · cases ran

theorem At.agrees {n : Nat} (here : At s x n l) :
    l.server ≠ .closed ∧ l.client ≠ .raised ∧
      (∀ secret token, l.server = .done secret token → secret = s.secret ∧ token = s.token) ∧
      (∀ secret, l.server = .token secret → secret = s.secret ∧ l.client = .result secret) := by
  obtain ⟨server, client, up, down⟩ := l
  simp only [At] at here ⊢
  generalize up.rest = unread at here
  generalize down.rest = unread' at here
  have told : s.verdict ≠ .raised := by
    unfold Setting.verdict
    split
    · exact Client.noConfusion
    split
    · exact Client.noConfusion
    split <;> exact Client.noConfusion
  cases here with
  | start | challenged | keyed | exchanged | responded => simp
  | verified => simp
  | answered => simp
  | finished => simp [told]

theorem login_completes (s : Setting) (honest : s.Honest) : ∃ bound, ∀ actions l,
    Transition.run (step s) .start actions = some l →
      actions.length ≤ bound ∧ l.server ≠ .closed ∧ l.client ≠ .raised ∧
      (∀ secret, l.server = .token secret → secret = s.secret ∧ l.client = .result secret) ∧
      (∀ secret token, l.server = .done secret token → secret = s.secret ∧ token = s.token) ∧
      (Settled s l → l.server = .done s.secret s.token ∧ l.client = s.verdict) := by
  obtain ⟨x, exchanged⟩ := honest.exchanged
  refine ⟨x.weight 0 .start, ?_⟩
  intro actions l ran
  have initial : At s x 0 .start := Stage.start
  obtain ⟨n, here, spent⟩ := run_advances exchanged initial actions ran
  obtain ⟨opened, kept, done, checked⟩ := here.agrees
  exact ⟨by omega, opened, kept, checked, done, settled_finished here⟩

def plainSetting : Setting where
  challenge := [1, 2, 3, 4, 5, 6, 7, 8]
  serverkey := [3, 0, 0, 0, 0, 0, 0, 0]
  clientkey := [5, 0, 0, 0, 0, 0, 0, 0]
  token := [116]
  authHandler := fun token => some ([115], token)
  loggedIn := false
  loginHandler := fun _ _ _ => some [49]

theorem plain_login : ∃ bound, ∀ actions l,
    Transition.run (step plainSetting) .start actions = some l → actions.length ≤ bound ∧
      (Settled plainSetting l → l.client = .done plainSetting.secret [49]) := by
  have honest : plainSetting.Honest := by
    refine ⟨rfl, ⟨rfl, 3, by decide, by decide⟩, ⟨rfl, 5, by decide, by decide⟩, by decide, ?_⟩
    rintro _ _ _ _ ⟨⟩
    decide
  obtain ⟨bound, all⟩ := login_completes plainSetting honest
  refine ⟨bound, fun actions l ran => ?_⟩
  obtain ⟨short, -, -, -, -, ends⟩ := all actions l ran
  exact ⟨short, fun settled => (ends settled).2⟩

end Pskynet.Loginserver
