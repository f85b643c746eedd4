import Pskynet.Lua.Number
import Pskynet.Lua.Text
import Pskynet.Shared.Loop

set_option autoImplicit false

namespace Pskynet.Http

open Lua

-- What `readbytes()` has still to return, one piece at a time
abbrev Reader := List (List UInt8)

-- Why there is no result: the bytes that are read next have not come, an error is raised, or nil is
-- returned.
inductive Stop where
  | waits
  | raised (text : String)
  | refused
  deriving DecidableEq, Repr

def limit : Nat := 8192

def crlf : List UInt8 := [13, 10]

def blankLine : List UInt8 := [13, 10, 13, 10]

-- `readbytes(n)`, which may take a piece in parts
def readExactly : Nat → Reader → Except Stop (List UInt8 × Reader)
  | n, [] => if n = 0 then .ok ([], []) else .error .waits
  | n, piece :: reader =>
    if n < piece.length then .ok (piece.take n, piece.drop n :: reader)
    else
      (readExactly (n - piece.length) reader).map fun (bytes, reader) => (piece ++ bytes, reader)

-- What `chunksize` makes of the body as it is, or none if it has to read on
def sizeLine (body : List UInt8) : Option (Except Stop (Int64 × List UInt8)) :=
  match find body crlf 1 with
  | some f =>
    match strToIntBase 16 (sub body 1 f) with
    | some sz => some (.ok (sz, body.drop (f + 2)))
    | none => some (.error .refused)
  | none => if 128 < body.length then some (.error .refused) else none

def chunksize : List UInt8 → Reader → Except Stop (Int64 × List UInt8 × Reader)
  | body, [] =>
    match sizeLine body with
    | some line => line.map fun (sz, body) => (sz, body, [])
    | none => .error .waits
  | body, piece :: reader =>
    match sizeLine body with
    | some line => line.map fun (sz, body) => (sz, body, piece :: reader)
    | none => chunksize (body ++ piece) reader

def readcrln (body : List UInt8) (reader : Reader) : Except Stop (List UInt8 × Reader) :=
  if 2 ≤ body.length then
    if body.take 2 ≠ crlf then .error .refused else .ok (body.drop 2, reader)
  else
    readExactly (2 - body.length) reader >>= fun (bytes, reader) =>
      if body ++ bytes ≠ crlf then .error .refused else .ok ([], reader)

-- `header:gmatch("(.-)\r\n")` up to the first line that is empty, behind the part of a line
def headerLines : List UInt8 → List UInt8 → List (List UInt8)
  | line, 13 :: 10 :: rest => if line = [] then [] else line :: headerLines [] rest
  | line, c :: rest => headerLines (line ++ [c]) rest
  | _, [] => []

structure Head where
  lines : List (List UInt8)
  body : List UInt8
  unread : Reader
  deriving DecidableEq, Repr

def recvheaderLoop : List UInt8 → Reader → Except Stop Head
  | _, [] => .error .waits
  | header, bytes :: reader =>
    let header := header ++ bytes
    if limit < header.length then .error .refused
    else
      match find header blankLine (-bytes.length - 3) with
      | some e => .ok ⟨headerLines [] header, header.drop (e + 4), reader⟩
      | none =>
        if crlf <+: header then .ok ⟨[], header.drop 2, reader⟩ else recvheaderLoop header reader

def recvheader (reader : Reader) (header : List UInt8) : Except Stop Head :=
  if 2 ≤ header.length ∧ crlf <+: header then .ok ⟨[], header.drop 2, reader⟩
  else
    match find header blankLine 1 with
    | some e => .ok ⟨headerLines [] header, header.drop (e + 4), reader⟩
    | none => recvheaderLoop header reader

inductive Field where
  | one (value : List UInt8)
  | many (values : List (List UInt8))
  deriving DecidableEq, Repr

abbrev Fields := List UInt8 → Option Field

def matchField (line : List UInt8) : Option (List UInt8 × List UInt8) :=
  (Search.find [58] line).map fun i => (line.take i, (line.drop (i + 1)).dropWhile isSpace)

def lower (name : List UInt8) : List UInt8 :=
  name.map fun c => if 65 ≤ c ∧ c ≤ 90 then c + 32 else c

def parseheader : List (List UInt8) → Option (List UInt8) → Fields → Except Stop Fields
  | [], _, header => .ok header
  | line :: lines, name, header =>
    if line.head? = some 9 then
      match name with
      | none => .error .refused
      | some name =>
        match header name with
        | some (.one value) =>
          parseheader lines name (Function.update header name (some (.one (value ++ line.drop 1))))
        | _ => .error (.raised "attempt to concatenate a table value")
    else
      match matchField line with
      | none => .error .refused
      | some (name, value) =>
        let name := lower name
        let field := match header name with
          | some (.many values) => Field.many (values ++ [value])
          | some (.one v) => .many [v, value]
          | none => .one value
        parseheader lines name (Function.update header name (some field))

structure ChunkState where
  result : List UInt8
  size : Int64
  body : List UInt8
  reader : Reader
  deriving DecidableEq, Repr

def takeChunk (sz : Int64) (body : List UInt8) (reader : Reader) :
    Except Stop (List UInt8 × List UInt8 × Reader) :=
  if sz.toInt ≤ body.length then .ok (sub body 1 sz.toInt, sub body (sz.toInt + 1) (-1), reader)
  else
    (readExactly (sz.toInt - body.length).toNat reader).map fun (bytes, reader) =>
      (body ++ bytes, [], reader)

def chunkBody (bodylimit : Option Int) (s : ChunkState) : Except Stop (ChunkState ⊕ ChunkState) :=
  chunksize s.body s.reader >>= fun (sz, body, reader) =>
    if sz = 0 then .ok (.inr { s with body := body, reader := reader })
    else
      let size := s.size + sz
      if bodylimit.any (· < size.toInt) then .error .refused
      else
        takeChunk sz body reader >>= fun (chunk, body, reader) =>
          (readcrln body reader).map fun (body, reader) =>
            .inl ⟨s.result ++ chunk, size, body, reader⟩

def chunkRound (bodylimit : Option Int) (s : ChunkState) : ChunkState ⊕ Except Stop ChunkState :=
  match chunkBody bodylimit s with
  | .error stop => .inr (.error stop)
  | .ok (.inl next) => .inl next
  | .ok (.inr last) => .inr (.ok last)

def recvtrailer (header : Fields) (s : ChunkState) : Except Stop (List UInt8 × Option Fields) :=
  recvheader s.reader s.body >>= fun head =>
    match parseheader head.lines none header with
    | .ok header => .ok (s.result, some header)
    | .error .refused => .ok (s.result, none)
    | .error stop => .error stop

def recvchunkedbody (reader : Reader) (bodylimit : Option Int) (header : Fields)
    (body : List UInt8) : Nat → Option (Except Stop (List UInt8 × Option Fields)) :=
  Loop.bind (fun fuel => Loop.run (chunkRound bodylimit) fuel ⟨[], 0, body, reader⟩) fun s _ =>
    some (recvtrailer header s)

end Pskynet.Http
