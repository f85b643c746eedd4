import Pskynet.Http.Header

set_option autoImplicit false

namespace Pskynet.Http

open Lua Numeral
open Search (FirstAt)

def httpStatusMsg (statuscode : Int64) : Option String :=
  match statuscode.toInt with
  | 100 => some "Continue"
  | 101 => some "Switching Protocols"
  | 200 => some "OK"
  | 201 => some "Created"
  | 202 => some "Accepted"
  | 203 => some "Non-Authoritative Information"
  | 204 => some "No Content"
  | 205 => some "Reset Content"
  | 206 => some "Partial Content"
  | 300 => some "Multiple Choices"
  | 301 => some "Moved Permanently"
  | 302 => some "Found"
  | 303 => some "See Other"
  | 304 => some "Not Modified"
  | 305 => some "Use Proxy"
  | 307 => some "Temporary Redirect"
  | 400 => some "Bad Request"
  | 401 => some "Unauthorized"
  | 402 => some "Payment Required"
  | 403 => some "Forbidden"
  | 404 => some "Not Found"
  | 405 => some "Method Not Allowed"
  | 406 => some "Not Acceptable"
  | 407 => some "Proxy Authentication Required"
  | 408 => some "Request Time-out"
  | 409 => some "Conflict"
  | 410 => some "Gone"
  | 411 => some "Length Required"
  | 412 => some "Precondition Failed"
  | 413 => some "Request Entity Too Large"
  | 414 => some "Request-URI Too Large"
  | 415 => some "Unsupported Media Type"
  | 416 => some "Requested range not satisfiable"
  | 417 => some "Expectation Failed"
  | 500 => some "Internal Server Error"
  | 501 => some "Not Implemented"
  | 502 => some "Bad Gateway"
  | 503 => some "Service Unavailable"
  | 504 => some "Gateway Time-out"
  | 505 => some "HTTP Version not supported"
  | _ => none

def bytes (s : String) : List UInt8 := s.toUTF8.data.toList

def paddedText (width : Nat) (n : Int64) : List UInt8 :=
  let number := digits 10 n.toInt.natAbs
  if n.toInt < 0 then 45 :: (List.replicate (width - 1 - number.length) 48 ++ number)
  else List.replicate (width - number.length) 48 ++ number

inductive BodyFunc where
  | string (s : LuaString)
  | function (yields : List LuaString)
  | nil

def writeField : List UInt8 × Field → List (List UInt8)
  | (k, .one v) => [k ++ bytes ": " ++ v ++ crlf]
  | (k, .many values) => values.map fun v => k ++ bytes ": " ++ v ++ crlf

def responseLines (statuscode : Int64) (header : List (List UInt8 × Field)) : List (List UInt8) :=
  (bytes "HTTP/1.1 " ++ paddedText 3 statuscode ++ bytes " " ++
    bytes ((httpStatusMsg statuscode).getD "") ++ crlf) :: header.flatMap writeField

def chunkedField : List UInt8 := bytes "transfer-encoding: chunked" ++ crlf

def writeChunks : List LuaString → List (List UInt8)
  | [] => [crlf ++ bytes "0" ++ blankLine]
  | s :: rest =>
    if s.1 ≠ [] then (crlf ++ digits 16 s.1.length ++ crlf) :: s.1 :: writeChunks rest
    else writeChunks rest

def writeall (statuscode : Int64) (bodyfunc : BodyFunc) (header : List (List UInt8 × Field)) :
    List (List UInt8) :=
  responseLines statuscode header ++
    match bodyfunc with
    | .string s => [bytes "content-length: " ++ digits 10 s.1.length ++ blankLine, s.1]
    | .function yields => chunkedField :: writeChunks yields
    | .nil => [crlf]

def behindHeader : List LuaString → List UInt8
  | [] => digits 16 0 ++ crlf ++ crlf
  | s :: rest =>
    if s.1 ≠ [] then digits 16 s.1.length ++ crlf ++ (s.1 ++ (crlf ++ behindHeader rest))
    else behindHeader rest

def joined (strings : List LuaString) : List UInt8 := (strings.map Subtype.val).flatten

theorem flatten_writeChunks (strings : List LuaString) :
    (writeChunks strings).flatten = crlf ++ behindHeader strings := by
  induction strings with
  | nil => decide
  | cons s strings ih =>
    unfold writeChunks behindHeader
    split_ifs
    · rw [List.flatten_cons, List.flatten_cons, ih]
      simp only [List.append_assoc]
    · exact ih

theorem flatten_writeall (statuscode : Int64) (strings : List LuaString)
    (header : List (List UInt8 × Field)) :
    (writeall statuscode (.function strings) header).flatten =
      (responseLines statuscode header).flatten ++ chunkedField ++ crlf ++ behindHeader strings := by
  change (responseLines statuscode header ++ chunkedField :: writeChunks strings).flatten = _
  rw [List.flatten_append, List.flatten_cons, flatten_writeChunks]
  simp only [List.append_assoc]

section

variable {body rest : List UInt8} {reader : Reader}

theorem cut_behind {front body more rest : List UInt8} (whole : body ++ more = front ++ rest)
    (enough : front.length ≤ body.length) : ∃ behind, body = front ++ behind ∧ behind ++ more = rest := by
  have first : front <+: body ++ more := ⟨rest, whole.symm⟩
  obtain ⟨behind, rfl⟩ := List.prefix_of_prefix_length_le first (List.prefix_append _ _) enough
  rw [List.append_assoc] at whole
  exact ⟨behind, rfl, List.append_cancel_left whole⟩

theorem unbroken_size (n : Nat) : ¬crlf <:+: digits 16 n ++ crlf.dropLast := by
  refine Search.not_infix_concat (by decide) (Search.not_infix_of_forall fun c inside => ?_)
  rintro rfl
  exact Bool.false_ne_true (isDigit_of_mem (by decide) (by decide) inside)

theorem firstAt_size (n : Nat) (rest : List UInt8) :
    FirstAt crlf (digits 16 n ++ crlf ++ rest) (digits 16 n).length :=
  Search.firstAt_append _ _ (unbroken_size n)

theorem crlf_ne_nil : crlf ≠ [] := List.cons_ne_nil _ _

theorem sizeLine_digits (n : Nat) (rest : List UInt8) :
    sizeLine (digits 16 n ++ crlf ++ rest) = some (.ok (Int64.ofNat n, rest)) := by
  have found := (Search.find_some_iff crlf_ne_nil _ _).mpr (firstAt_size n rest)
  have behind : (digits 16 n ++ crlf ++ rest).drop ((digits 16 n).length + 2) = rest :=
    List.drop_left' List.length_append
  rw [sizeLine, find_first, found]
  simp only [sub_front, behind]
  rw [List.append_assoc, List.take_left, strToIntBase_digits (by decide) (by decide)]

theorem sizeLine_part {n : Nat} {before more : List UInt8} (few : n < 2 ^ 63)
    (whole : before ++ more = digits 16 n ++ crlf ++ rest)
    (short : before.length < (digits 16 n).length + 2) : sizeLine before = none := by
  have length : (digits 16 n).length ≤ 16 :=
    (length_digits_le_iff (by decide) (by decide)).mpr (few.trans (by decide))
  have apart : ¬crlf <:+: before := (whole ▸ firstAt_size n rest).not_infix_front short
  rw [sizeLine, find_first, (Search.find_none_iff crlf_ne_nil _).mpr apart]
  exact if_neg (by omega)

theorem chunksize_digits {n : Nat} (few : n < 2 ^ 63)
    (whole : body ++ reader.flatten = digits 16 n ++ crlf ++ rest) :
    ∃ body' reader', chunksize body reader = .ok (Int64.ofNat n, body', reader') ∧
      body' ++ reader'.flatten = rest := by
  have front : (digits 16 n ++ crlf).length = (digits 16 n).length + 2 := List.length_append
  induction reader generalizing body with
  | nil =>
    have enough : (digits 16 n ++ crlf).length ≤ body.length := by
      rw [List.flatten_nil, List.append_nil] at whole
      rw [whole]
      exact (List.prefix_append _ _).length_le
    obtain ⟨behind, rfl, later⟩ := cut_behind whole enough
    refine ⟨behind, [], ?_, later⟩
    rw [chunksize, sizeLine_digits]
    rfl
  | cons piece reader ih =>
    by_cases enough : (digits 16 n ++ crlf).length ≤ body.length
    · obtain ⟨behind, rfl, later⟩ := cut_behind whole enough
      refine ⟨behind, piece :: reader, ?_, later⟩
      rw [chunksize, sizeLine_digits]
      rfl
    · rw [chunksize, sizeLine_part few whole (by omega)]
      exact ih (by rw [List.append_assoc]; exact whole)

theorem readExactly_front {bytes : List UInt8} (whole : reader.flatten = bytes ++ rest) :
    ∃ reader', readExactly bytes.length reader = .ok (bytes, reader') ∧ reader'.flatten = rest := by
  induction reader generalizing bytes with
  | nil =>
    obtain ⟨rfl, rfl⟩ := List.append_eq_nil_iff.mp whole.symm
    exact ⟨[], rfl, rfl⟩
  | cons piece reader ih =>
    rw [readExactly]
    by_cases less : bytes.length < piece.length
    · obtain ⟨behind, rfl, later⟩ := cut_behind whole (Nat.le_of_lt less)
      rw [if_pos less, List.take_left, List.drop_left]
      exact ⟨behind :: reader, rfl, later⟩
    · obtain ⟨behind, rfl, later⟩ := cut_behind whole.symm (Nat.le_of_not_lt less)
      obtain ⟨reader', done, left⟩ := ih later.symm
      rw [if_neg less, List.length_append, Nat.add_sub_cancel_left, done]
      exact ⟨reader', rfl, left⟩

theorem takeChunk_front {s : LuaString} (whole : body ++ reader.flatten = s.1 ++ rest) :
    ∃ body' reader', takeChunk (Int64.ofNat s.1.length) body reader = .ok (s.1, body', reader') ∧
      body' ++ reader'.flatten = rest := by
  have size := Int64.toInt_ofNat_of_lt s.2
  rw [takeChunk, size]
  by_cases enough : s.1.length ≤ body.length
  · obtain ⟨behind, rfl, later⟩ := cut_behind whole enough
    rw [if_pos (Int.ofNat_le.mpr enough), sub_front, sub_behind, List.take_left, List.drop_left]
    exact ⟨behind, reader, rfl, later⟩
  · obtain ⟨behind, same, later⟩ := cut_behind whole.symm (Nat.le_of_not_le enough)
    obtain ⟨reader', done, left⟩ := readExactly_front later.symm
    have missing : ((s.1.length : Int) - body.length).toNat = behind.length := by
      have length := congrArg List.length same
      rw [List.length_append] at length
      omega
    rw [if_neg (by omega), missing, done]
    exact ⟨[], reader', by rw [same]; rfl, left⟩

theorem readcrln_front (whole : body ++ reader.flatten = crlf ++ rest) :
    ∃ body' reader', readcrln body reader = .ok (body', reader') ∧
      body' ++ reader'.flatten = rest := by
  rw [readcrln]
  by_cases enough : 2 ≤ body.length
  · obtain ⟨behind, rfl, later⟩ := cut_behind whole enough
    rw [if_pos enough]
    exact ⟨behind, reader, rfl, later⟩
  · obtain ⟨behind, same, later⟩ := cut_behind whole.symm (Nat.le_of_not_le enough)
    obtain ⟨reader', done, left⟩ := readExactly_front later.symm
    have missing : 2 - body.length = behind.length := by
      have length : 2 = _ := congrArg List.length same
      rw [List.length_append] at length
      omega
    rw [if_neg enough, missing, done]
    refine ⟨[], reader', ?_, left⟩
    change (if body ++ behind ≠ crlf then _ else _) = _
    rw [if_neg (not_not.mpr same.symm)]

theorem recvheader_crlf (whole : body ++ reader.flatten = crlf) :
    ∃ head, recvheader reader body = .ok head ∧ head.lines = [] := by
  rw [recvheader]
  by_cases enough : 2 ≤ body.length
  · have all : crlf <+: body ++ reader.flatten := whole ▸ List.prefix_rfl
    have first : crlf <+: body :=
      List.prefix_of_prefix_length_le all (List.prefix_append _ _) enough
    rw [if_pos ⟨enough, first⟩]
    exact ⟨_, rfl, rfl⟩
  · have apart : ¬blankLine <:+: body := fun inside => enough (by
      have length : 4 ≤ body.length := inside.length_le
      omega)
    have total := reach_le_total 2 body.length reader
    rw [← List.length_append, whole] at total
    have read := recvheaderLoop_leading body reader List.prefix_rfl whole (Nat.lt_of_not_le enough)
    rw [if_pos (total.trans (by decide))] at read
    obtain ⟨head, done, lines, -⟩ := read
    rw [if_neg (fun both => enough both.1), find_first,
      (Search.find_none_iff blankLine_ne_nil _).mpr apart]
    exact ⟨head, done, lines⟩

theorem recvtrailer_crlf (header : Fields) {s : ChunkState}
    (whole : s.body ++ s.reader.flatten = crlf) :
    recvtrailer header s = .ok (s.result, some header) := by
  obtain ⟨head, done, lines⟩ := recvheader_crlf whole
  have parsed : parseheader head.lines none header = .ok header := by
    rw [lines, parseheader]
  rw [recvtrailer, done]
  simp only [bind, Except.bind, parsed]

end

section

variable {rest : List UInt8} {s : ChunkState}

theorem toInt_ofNat_le (n : Nat) : (Int64.ofNat n).toInt ≤ n := by
  rw [Int64.toInt_ofNat']
  simp only [Int64.size, Int.bmod_def]
  omega

theorem chunkBody_last (bodylimit : Option Int)
    (whole : s.body ++ s.reader.flatten = digits 16 0 ++ crlf ++ rest) :
    ∃ last, chunkBody bodylimit s = .ok (.inr last) ∧ last.result = s.result ∧
      last.body ++ last.reader.flatten = rest := by
  obtain ⟨body, reader, done, left⟩ := chunksize_digits (by decide) whole
  rw [chunkBody, done]
  exact ⟨{ s with body := body, reader := reader }, rfl, rfl, left⟩

theorem chunkBody_next (bodylimit : Option Int) {string : LuaString} (filled : string.1 ≠ [])
    (whole : s.body ++ s.reader.flatten =
      digits 16 string.1.length ++ crlf ++ (string.1 ++ (crlf ++ rest)))
    (within : ∀ most ∈ bodylimit, (s.size + Int64.ofNat string.1.length).toInt ≤ most) :
    ∃ next, chunkBody bodylimit s = .ok (.inl next) ∧ next.result = s.result ++ string.1 ∧
      next.size = s.size + Int64.ofNat string.1.length ∧
      next.body ++ next.reader.flatten = rest := by
  obtain ⟨body, reader, done, left⟩ := chunksize_digits string.2 whole
  obtain ⟨body, reader, taken, left⟩ := takeChunk_front left
  obtain ⟨body, reader, ended, left⟩ := readcrln_front left
  have positive : ¬Int64.ofNat string.1.length = 0 := by
    intro none
    have zero := congrArg Int64.toInt none
    rw [Int64.toInt_ofNat_of_lt string.2, Int64.toInt_zero] at zero
    exact filled (List.length_eq_zero_iff.mp (by omega))
  have fits : ¬bodylimit.any (· < (s.size + Int64.ofNat string.1.length).toInt) = true := by
    intro exceeded
    obtain ⟨most, is, less⟩ := (Option.any_eq_true _ _).mp exceeded
    exact absurd (within most is) (Int.not_le.mpr (of_decide_eq_true less))
  refine ⟨⟨s.result ++ string.1, s.size + Int64.ofNat string.1.length, body, reader⟩, ?_, rfl, rfl,
    left⟩
  rw [chunkBody, done]
  change (if Int64.ofNat string.1.length = 0 then _ else _) = _
  rw [if_neg positive]
  simp only [if_neg fits, taken]
  change (readcrln _ _).map _ = _
  rw [ended]
  rfl

theorem run_chunks (bodylimit : Option Int) (strings : List LuaString) {n : Nat}
    (size : s.size = Int64.ofNat n)
    (whole : s.body ++ s.reader.flatten = behindHeader strings)
    (enough : ∀ most ∈ bodylimit, ((n + (joined strings).length : Nat) : Int) ≤ most) :
    ∃ last, Loop.Gives (fun fuel => Loop.run (chunkRound bodylimit) fuel s) (.ok last) ∧
      last.result = s.result ++ joined strings ∧ last.body ++ last.reader.flatten = crlf := by
  induction strings generalizing s n with
  | nil =>
    obtain ⟨last, done, result, left⟩ := chunkBody_last bodylimit whole
    have leaves : chunkRound bodylimit s = .inr (.ok last) := by
      rw [chunkRound, done]
    refine ⟨last, ⟨1, Loop.run_inr leaves 0⟩, ?_, left⟩
    rw [result]
    exact (List.append_nil _).symm
  | cons string strings ih =>
    have total : (joined (string :: strings)).length = string.1.length + (joined strings).length :=
      List.length_append
    rw [behindHeader] at whole
    by_cases filled : string.1 ≠ []
    · rw [if_pos filled] at whole
      have sum : s.size + Int64.ofNat string.1.length = Int64.ofNat (n + string.1.length) := by
        rw [size, ← Int64.ofNat_add]
      obtain ⟨next, done, result, size, left⟩ := chunkBody_next bodylimit filled whole (by
        intro most is
        have least := enough most is
        have wrapped := toInt_ofNat_le (n + string.1.length)
        rw [sum]
        omega)
      have goes_on : chunkRound bodylimit s = .inl next := by
        rw [chunkRound, done]
      obtain ⟨last, ⟨fuel, run⟩, joined_, left⟩ := ih (size.trans sum) left (by
        intro most is
        have least := enough most is
        omega)
      refine ⟨last, ⟨fuel + 1, (Loop.run_inl goes_on fuel).trans run⟩, ?_, left⟩
      rw [joined_, result, List.append_assoc]
      rfl
    · rw [if_neg filled] at whole
      have same : joined (string :: strings) = joined strings := by
        change string.1 ++ joined strings = _
        rw [not_not.mp filled, List.nil_append]
      rw [same] at enough ⊢
      exact ih size whole enough

theorem recvchunkedbody_behind (bodylimit : Option Int) (header : Fields) (strings : List LuaString)
    {body : List UInt8} {reader : Reader} (whole : body ++ reader.flatten = behindHeader strings)
    (enough : ∀ most ∈ bodylimit, ((joined strings).length : Int) ≤ most) :
    Loop.Gives (recvchunkedbody reader bodylimit header body)
      (.ok (joined strings, some header)) := by
  obtain ⟨last, run, result, left⟩ := run_chunks bodylimit strings (n := 0)
    (s := ⟨[], 0, body, reader⟩) rfl whole (by rwa [Nat.zero_add])
  refine (Loop.gives_bind_of_ok (Loop.grows_run _ _) (fun _ => Loop.grows_const _) run _).mpr ?_
  rw [Loop.gives_const, recvtrailer_crlf header left, result]
  rfl

end

theorem recvchunkedbody_header (statuscode : Int64) (header : List (List UInt8 × Field))
    (strings : List LuaString) (bodylimit : Option Int) (fields : Fields) {pieces : Reader}
    {head : Head}
    (plain : ¬blankLine <:+: (responseLines statuscode header).flatten ++ chunkedField)
    (whole : pieces.flatten = (writeall statuscode (.function strings) header).flatten)
    (accepted : recvheader pieces [] = .ok head)
    (enough : ∀ most ∈ bodylimit, ((joined strings).length : Int) ≤ most) :
    Loop.Gives (recvchunkedbody head.unread bodylimit fields head.body)
      (.ok (joined strings, some fields)) := by
  refine recvchunkedbody_behind bodylimit fields strings ?_ enough
  have lines : (responseLines statuscode header).flatten ++ chunkedField =
      (responseLines statuscode header).flatten ++ bytes "transfer-encoding: chunked" ++ crlf :=
    (List.append_assoc _ _ _).symm
  have stream : (writeall statuscode (.function strings) header).flatten =
      (responseLines statuscode header).flatten ++ bytes "transfer-encoding: chunked" ++
        blankLine ++ behindHeader strings := by
    rw [flatten_writeall, lines]
    simp only [List.append_assoc]
    rfl
  have begins : ∃ rest, (responseLines statuscode header).flatten ++
      bytes "transfer-encoding: chunked" = 72 :: rest := ⟨_, rfl⟩
  generalize (responseLines statuscode header).flatten ++ bytes "transfer-encoding: chunked" =
    front at lines stream begins
  rw [lines] at plain
  have unbroken : ¬crlf <+: (writeall statuscode (.function strings) header).flatten := by
    obtain ⟨rest, rfl⟩ := begins
    rw [stream]
    exact fun first => absurd (List.cons_prefix_cons.mp first).1 (by decide)
  have blank : FirstAt blankLine (writeall statuscode (.function strings) header).flatten
      front.length := by
    have apart := Search.not_infix_concat (a := 13) (by decide) plain
    rw [stream]
    exact Search.firstAt_append _ _ (by rwa [List.append_assoc] at apart)
  have read := recvheaderLoop_found [] pieces unbroken blank whole (Nat.succ_pos _)
  change recvheaderLoop [] pieces = .ok head at accepted
  rw [accepted] at read
  split_ifs at read
  obtain ⟨_, same, -, body⟩ := read
  cases same
  rw [body, stream]
  exact List.drop_left' List.length_append

theorem chunked_round_trip (statuscode : Int64) (header : List (List UInt8 × Field))
    (strings : List LuaString) (bodylimit : Option Int) (fields : Fields)
    (enough : ∀ most ∈ bodylimit, ((joined strings).length : Int) ≤ most) :
    (∀ (body : List UInt8) (reader : Reader),
      (responseLines statuscode header).flatten ++ chunkedField ++ crlf ++
        (body ++ reader.flatten) = (writeall statuscode (.function strings) header).flatten →
      Loop.Gives (recvchunkedbody reader bodylimit fields body)
        (.ok (joined strings, some fields))) ∧
      ∀ (pieces : Reader) (head : Head),
        ¬blankLine <:+: (responseLines statuscode header).flatten ++ chunkedField →
        pieces.flatten = (writeall statuscode (.function strings) header).flatten →
        recvheader pieces [] = .ok head →
        Loop.Gives (recvchunkedbody head.unread bodylimit fields head.body)
          (.ok (joined strings, some fields)) := by
  refine ⟨?_, ?_⟩
  · intro body reader written
    rw [flatten_writeall] at written
    exact recvchunkedbody_behind bodylimit fields strings (List.append_cancel_left written) enough
  · intro pieces head plain whole accepted
    exact recvchunkedbody_header statuscode header strings bodylimit fields plain whole accepted
      enough

def greeting : List LuaString := [⟨[72, 105], by decide⟩, ⟨[], by decide⟩, ⟨[33], by decide⟩]

-- The response is cut inside its first line and inside its last chunk.
def greetingPieces : Reader :=
  let written := (writeall 200 (.function greeting) []).flatten
  [written.take 12, (written.drop 12).take 45, written.drop 57]

theorem greeting_round_trip :
    Loop.Gives
        (recvchunkedbody [[13], [10, 72], [105, 13, 10, 49, 13, 10, 33, 13], [10, 48, 13, 10],
          [13, 10]] (some 3) (fun _ => none) [50])
        (.ok ([72, 105, 33], some fun _ => none)) ∧
      ∃ head, recvheader greetingPieces [] = .ok head ∧
        Loop.Gives (recvchunkedbody head.unread (some 3) (fun _ => none) head.body)
          (.ok ([72, 105, 33], some fun _ => none)) := by
  obtain ⟨behind, whole⟩ :=
    chunked_round_trip 200 [] greeting (some 3) (fun _ => none) (by decide)
  refine ⟨behind [50] _ (by decide), ?_⟩
  obtain ⟨head, accepted⟩ : ∃ head, recvheader greetingPieces [] = .ok head := ⟨_, rfl⟩
  exact ⟨head, accepted, whole greetingPieces head (by decide) (by decide) accepted⟩
end Pskynet.Http
