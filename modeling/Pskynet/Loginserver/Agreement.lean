import Pskynet.Loginserver.Handshake

set_option autoImplicit false

namespace Pskynet.Loginserver

open Crypt

theorem encodingAt_ne (v : UInt32) : encodingAt v ≠ 10 := by
  have none_ : encoding.all (· != 10) = true := rfl
  have all : ∀ c ∈ encoding, c ≠ 10 := by simpa using none_
  rw [encodingAt, List.getD_eq_getElem?_getD]
  cases found : encoding[v.toNat]? with
  | none => exact (by decide : (0 : UInt8) ≠ 10)
  | some c => exact all c (List.mem_of_getElem? found)

theorem newline_encoded (text : List UInt8) : 10 ∉ encoded text := by
  induction text using encoded.induct with
  | case1 => exact List.not_mem_nil
  | case2 first =>
    rw [encoded, encodeOne]
    simp [(encodingAt_ne _).symm]
  | case3 first second =>
    rw [encoded, encodeTwo]
    simp [(encodingAt_ne _).symm]
  | case4 first second third rest ih =>
    rw [encoded, encodeGroup]
    simp [(encodingAt_ne _).symm, ih]

theorem spread_none (k : Nat) (text : List UInt8) : spread (fun _ => []) [] k text = text := by
  induction text generalizing k with
  | nil => rfl
  | cons c rest ih => rw [spread, List.map_nil, List.nil_append, ih]

theorem b64decode_encoded (text : List UInt8) (small : text.length < 2 ^ 30) :
    b64decode (encoded text) = .ok text := by
  have length := length_encoded text
  have fits : spreadLength text (fun _ => []) < 2 ^ 31 := by
    rw [spreadLength]
    simp only [List.length_nil, Finset.sum_const_zero]
    omega
  obtain ⟨code, written, done⟩ := roundTrips_of_fits fits
  obtain rfl := Except.ok.inj ((b64encode_encoded text (by omega)).symm.trans written)
  rwa [spread_none] at done

theorem line_eq (text : List UInt8) (small : text.length < 2 ^ 30) :
    Setting.line text = some (encoded text ++ [10]) := by
  have length := length_encoded text
  rw [Setting.line, b64encode_encoded text (by omega)]
  rfl

theorem split_newline {front line back more : List UInt8} (first : 10 ∉ front) (inside : 10 ∉ line)
    (same : front ++ 10 :: back = line ++ 10 :: more) : front = line ∧ back = more := by
  induction front generalizing line with
  | nil =>
    cases line with
    | nil => exact ⟨rfl, (List.cons.inj same).2⟩
    | cons c line =>
      rw [← (List.cons.inj same).1] at inside
      exact absurd List.mem_cons_self inside
  | cons c front ih =>
    cases line with
    | nil =>
      rw [(List.cons.inj same).1] at first
      exact absurd List.mem_cons_self first
    | cons d line =>
      obtain ⟨rfl, tails⟩ := List.cons.inj same
      obtain ⟨rfl, rfl⟩ := ih (fun among => first (List.mem_cons_of_mem _ among))
        (fun among => inside (List.mem_cons_of_mem _ among)) tails
      exact ⟨rfl, rfl⟩

namespace Pipe

variable {p q : Pipe} {line text more : List UInt8}

theorem readline_rest (read : p.readline = some (line, q)) (whole : p.rest = text ++ 10 :: more)
    (inside : 10 ∉ text) : line = text ∧ q.rest = more := by
  unfold readline at read
  split at read
  · rename_i here
    simp only [Option.some.injEq, Prod.mk.injEq] at read
    obtain ⟨rfl, rfl⟩ := read
    obtain ⟨front, back, parts, first⟩ := List.eq_append_cons_of_mem here
    have before : ∀ c ∈ front, decide (c ≠ 10) = true := fun c among =>
      decide_eq_true fun is => first (is ▸ among)
    have taken : p.buffer.takeWhile (· ≠ 10) = front := by
      rw [parts, List.takeWhile_append_of_pos before, List.takeWhile_cons_of_neg (by simp),
        List.append_nil]
    have dropped : p.buffer.dropWhile (· ≠ 10) = 10 :: back := by
      rw [parts, List.dropWhile_append_of_pos before, List.dropWhile_cons_of_neg (by simp)]
    rw [rest, parts, List.append_assoc, List.cons_append] at whole
    rw [taken, dropped]
    exact split_newline first inside whole
  · cases read

theorem readline_all (whole : p.rest = text ++ 10 :: more) (arrived : p.wire = []) :
    ∃ line q, p.readline = some (line, q) := by
  have here : 10 ∈ p.buffer := by
    rw [rest, arrived, List.append_nil] at whole
    rw [whole]
    exact List.mem_append_right _ List.mem_cons_self
  exact ⟨_, _, if_pos here⟩

theorem readline_none (nothing : p.rest = []) : p.readline = none := by
  have empty : p.buffer = [] := (List.append_eq_nil_iff.mp nothing).1
  refine if_neg ?_
  rw [empty]
  exact List.not_mem_nil

theorem rest_write (p : Pipe) (text : List UInt8) : (p.write text).rest = p.rest ++ text :=
  (List.append_assoc _ _ _).symm

theorem rest_deliver (p : Pipe) (n : Nat) : (p.deliver n).rest = p.rest := by
  rw [rest, deliver, List.append_assoc, List.take_append_drop, rest]

end Pipe

-- Keys that can be exponents, a token whose line and the response before it are within the limit of
-- the buffer, and handlers that give no giant `subid`.
structure Setting.Honest (s : Setting) : Prop where
  challenge : s.challenge.length = 8
  serverkey : Key s.serverkey
  clientkey : Key s.clientkey
  token : s.token.length < 6128
  subid : ∀ server uid secret subid, s.loginHandler server uid secret = some subid →
    subid.length < 2 ^ 30

def Setting.secret (s : Setting) : List UInt8 :=
  LittleEndian.bytes 8
    (5 ^ (LittleEndian.value s.clientkey * LittleEndian.value s.serverkey) % modulus)

def Setting.verdict (s : Setting) : Client :=
  match s.authHandler s.token with
  | none => .refused s.secret Setting.unauthorized.dropLast
  | some (server, uid) =>
      if s.loggedIn then .refused s.secret Setting.notAcceptable.dropLast
      else
        match s.loginHandler server uid s.secret with
        | some subid => .done s.secret subid
        | none => .refused s.secret Setting.forbidden.dropLast

structure Texts where
  challenge : List UInt8
  clientKey : List UInt8
  serverKey : List UInt8
  response : List UInt8
  etoken : List UInt8
  final : List UInt8

structure Exchanged (s : Setting) (x : Texts) : Prop where
  begins : Setting.line s.challenge = some (x.challenge ++ [10])
  answered : s.answerChallenge x.challenge = some (s.challenge, x.clientKey ++ [10])
  exchanged : s.exchangeKeys x.clientKey = some (x.serverKey ++ [10], s.secret)
  responded : s.answerKey s.challenge x.serverKey =
    some (s.secret, x.response ++ [10] ++ (x.etoken ++ [10]))
  checked : s.checkResponse s.secret x.response = some true
  read : Setting.readToken s.secret x.etoken = some s.token
  accepted : s.accept s.token s.secret = some (x.final ++ [10])
  told : Setting.readResult s.secret x.final = s.verdict
  whole : 10 ∉ x.challenge ∧ 10 ∉ x.clientKey ∧ 10 ∉ x.serverKey ∧ 10 ∉ x.response ∧
    10 ∉ x.etoken ∧ 10 ∉ x.final
  short : x.clientKey.length + 1 ≤ limit ∧ x.response.length + x.etoken.length + 2 ≤ limit

variable {s : Setting}

theorem bind_some {α β : Type} {o : Option α} {f : α → Option β} {a : α} {b : β} (found : o = some a)
    (next : f a = some b) : (o >>= f) = some b := by
  rw [found]
  exact next

theorem toOption_ok {ε α : Type} {e : Except ε α} {a : α} (ran : e = .ok a) :
    e.toOption = some a := by
  rw [ran]
  rfl

theorem Setting.Honest.final (honest : s.Honest) :
    ∃ text, s.accept s.token s.secret = some (text ++ [10]) ∧
      Setting.readResult s.secret text = s.verdict ∧ 10 ∉ text := by
  unfold Setting.accept Setting.verdict
  cases s.authHandler s.token with
  | none => exact ⟨Setting.unauthorized.dropLast, rfl, rfl, by decide⟩
  | some user =>
    obtain ⟨server, uid⟩ := user
    dsimp only
    by_cases busy : s.loggedIn = true
    · rw [if_pos busy, if_pos busy]
      exact ⟨Setting.notAcceptable.dropLast, rfl, rfl, by decide⟩
    · rw [if_neg busy, if_neg busy]
      cases given : s.loginHandler server uid s.secret with
      | none => exact ⟨Setting.forbidden.dropLast, rfl, rfl, by decide⟩
      | some subid =>
        have small := honest.subid server uid s.secret subid given
        refine ⟨[50, 48, 48, 32] ++ encoded subid, ?_, ?_, ?_⟩
        · change (Setting.line subid).map _ = _
          rw [line_eq subid small]
          rfl
        · have decoded := toOption_ok (b64decode_encoded subid small)
          have code : ([50, 48, 48, 32] ++ encoded subid).take 3 = [50, 48, 48] := rfl
          have rest : ([50, 48, 48, 32] ++ encoded subid).drop 4 = encoded subid := rfl
          rw [Setting.readResult, if_pos code, rest, decoded]
          rfl
        · rw [List.mem_append, not_or]
          exact ⟨by decide, newline_encoded subid⟩

theorem secret_length (s : Setting) : s.secret.length = 8 := LittleEndian.length_bytes 8 _

theorem Setting.Honest.serverSecret (honest : s.Honest) {key : UInt64}
    (value : key.toNat = 5 ^ LittleEndian.value s.clientkey % modulus) :
    dhsecret (push64 key) s.serverkey = .ok s.secret := by
  have reduced : key.toNat < modulus := by
    rw [value]
    exact Nat.mod_lt _ modulus_pos
  rw [dhsecret_eq honest.serverkey key reduced, value, secret_exponent, Setting.secret]

theorem Setting.Honest.clientSecret (honest : s.Honest) {key : UInt64}
    (value : key.toNat = 5 ^ LittleEndian.value s.serverkey % modulus) :
    dhsecret (push64 key) s.clientkey = .ok s.secret := by
  have reduced : key.toNat < modulus := by
    rw [value]
    exact Nat.mod_lt _ modulus_pos
  rw [dhsecret_eq honest.clientkey key reduced, value, secret_exponent, Setting.secret, Nat.mul_comm]

theorem Setting.Honest.exchanged (honest : s.Honest) : ∃ x, Exchanged s x := by
  obtain ⟨final, accepted, told, last⟩ := honest.final
  obtain ⟨clientKey, atClient, clientValue⟩ := dhexchange_eq honest.clientkey
  obtain ⟨serverKey, atServer, serverValue⟩ := dhexchange_eq honest.serverkey
  obtain ⟨mac, macs, macLength⟩ := hmac64_ok honest.challenge (secret_length s)
  have token := honest.token
  have cipher := desencode_eq s.secret s.token (secret_length s) (by omega)
  have plain := desdecode_eq s.secret s.token (secret_length s) (by omega)
  have size := length_mapBlocks (length_desCrypt (desMainKs s.secret)) (s.token.length / 8 + 1)
    (padded s.token)
  generalize mapBlocks (desCrypt (desMainKs s.secret)) (s.token.length / 8 + 1) (padded s.token) =
    code at cipher plain size
  have serverSecret := honest.serverSecret clientValue
  have clientSecret := honest.clientSecret serverValue
  have first := length_push64 clientKey
  have second := length_push64 serverKey
  generalize push64 clientKey = mine at atClient serverSecret first
  generalize push64 serverKey = theirs at atServer clientSecret second
  have challenge := honest.challenge
  refine ⟨⟨encoded s.challenge, encoded mine, encoded theirs, encoded mac,
    encoded code, final⟩, ?_, ?_, ?_, ?_, ?_, ?_, accepted, told, ?_, ?_⟩
  · exact line_eq s.challenge (by omega)
  · refine bind_some (toOption_ok (b64decode_encoded s.challenge (by omega))) ?_
    refine bind_some (toOption_ok atClient) ?_
    exact bind_some (line_eq mine (by omega)) rfl
  · refine bind_some (toOption_ok (b64decode_encoded mine (by omega))) ?_
    refine bind_some (if_pos first) ?_
    refine bind_some (toOption_ok atServer) ?_
    refine bind_some (line_eq theirs (by omega)) ?_
    exact bind_some (toOption_ok serverSecret) rfl
  · refine bind_some (toOption_ok (b64decode_encoded theirs (by omega))) ?_
    refine bind_some (toOption_ok clientSecret) ?_
    refine bind_some (toOption_ok macs) ?_
    refine bind_some (line_eq mac (by omega)) ?_
    refine bind_some (toOption_ok cipher) ?_
    exact bind_some (line_eq code (by omega)) rfl
  · refine bind_some (toOption_ok macs) ?_
    refine bind_some (toOption_ok (b64decode_encoded mac (by omega))) ?_
    exact congrArg some (decide_eq_true rfl)
  · refine bind_some (toOption_ok (b64decode_encoded code (by omega))) ?_
    exact toOption_ok plain
  · exact ⟨newline_encoded _, newline_encoded _, newline_encoded _, newline_encoded _,
      newline_encoded _, last⟩
  · have lengths := length_encoded code
    have keys := length_encoded mine
    have macs := length_encoded mac
    simp only [limit]
    omega

end Pskynet.Loginserver
