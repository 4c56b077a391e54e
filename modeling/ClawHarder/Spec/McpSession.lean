import ClawHarder.Lib.PyCodec
import ClawHarder.Lib.PyJson

/-!
# The session with an MCP server

From `mcp.py`: `_send_message`, `_read_message` and `_rpc`. The pipe from the server is not
buffered. It holds what the server still gives and how many bytes are there at each call of
`read`: such a call returns at least one byte of a pipe that is not at its end, and no more than
are there. `readline` reads one byte at a time. A `RuntimeError` is given by its text; `Host` has
the texts that are made of bytes and of errors, and the comparison of a float with an integer.
-/

namespace ClawHarder.Mcp

open PyText (lit)

def maxMcpResponseBytes : ℤ := 1 * 1024 * 1024

structure Host where
  /-- `repr` of the float that a text denotes -/
  floatRepr : PyText → PyText
  /-- a float is equal to an integer -/
  floatIs : PyText → ℤ → Bool
  /-- `str` of a list or a dictionary -/
  reprOf : PyValue → PyText
  /-- `repr` of bytes -/
  reprOfBytes : Bytes → PyText
  /-- `repr` of a text -/
  reprOfText : PyText → PyText
  /-- why a body is malformed -/
  malformed : Bytes → PyText
  /-- `_read_stderr()` -/
  stderr : PyText
  /-- `config.name` -/
  serverName : PyText

structure Pipe where
  data : Bytes
  /-- how many bytes are there at each call of `read` -/
  there : ℕ → ℕ

/-- `read(n)`; a negative number asks for all. -/
def Pipe.read (p : Pipe) (n : ℤ) : Bytes × Pipe :=
  if n < 0 then (p.data, { p with data := [] })
  else
    let count := min n.toNat (max 1 (p.there 0))
    (p.data.take count, ⟨p.data.drop count, fun i => p.there (i + 1)⟩)

/-- The bytes of a text in ASCII. -/
def encodeAscii (t : PyText) : Bytes := t.map fun c => UInt8.ofNat c.val

/-- `line.decode("ascii")`; none is `UnicodeDecodeError`. -/
def decodeAscii (line : Bytes) : Option PyText :=
  if line.all fun b => b.toNat < 128 then some (line.map fun b => Fin.ofNat 0x110000 b.toNat)
  else none

abbrev Headers := List (PyText × PyText)

def colon : CodePoint := PyText.codePoint ':'

/-- `key, value = line.decode("ascii").split(":", 1)`, the two stripped and the key lowered. -/
def parseHeader (line : Bytes) : Option (PyText × PyText) :=
  match decodeAscii line with
  | none => none
  | some text =>
    if colon ∈ text then
      some (PyText.lower (PyText.strip (text.takeWhile (· ≠ colon))),
        PyText.strip ((text.dropWhile (· ≠ colon)).drop 1))
    else none

/-- `headers.get(key)`; the last assignment counts. -/
def header (key : String) (headers : Headers) : Option PyText :=
  (headers.reverse.find? (·.1 = lit key)).map Prod.snd

def isDigit (c : CodePoint) : Bool := 48 ≤ c.val && c.val ≤ 57

/-- Digits, with single underscores between them. -/
def parseDigits (acc : ℕ) (afterDigit : Bool) : PyText → Option ℕ
  | [] => if afterDigit then some acc else none
  | c :: s =>
    if isDigit c then parseDigits (10 * acc + (c.val - 48)) true s
    else if c = PyText.codePoint '_' ∧ afterDigit then parseDigits acc false s
    else none

/-- `int(text)`; none is `ValueError`. -/
def parseInt (text : PyText) : Option ℤ :=
  match PyText.strip text with
  | [] => none
  | c :: s =>
    if c = PyText.codePoint '-' then (parseDigits 0 false s).map fun n => -Int.ofNat n
    else if c = PyText.codePoint '+' then (parseDigits 0 false s).map Int.ofNat
    else (parseDigits 0 false (c :: s)).map Int.ofNat

variable (h : Host) (method : PyText)

def closedWaiting : PyText :=
  lit "MCP server closed while waiting for " ++ method ++ lit ": " ++ h.stderr

def invalidHeader (line : Bytes) : PyText :=
  lit "Invalid MCP header from " ++ h.serverName ++ lit ": " ++ h.reprOfBytes line

/-- The loop over the lines of the header, with the bytes of the line that is being read: the
headers, and the bytes behind the blank line. -/
def readHeaders (line : Bytes) (headers : Headers) : Bytes → Except PyText (Headers × Bytes)
  | [] =>
    -- the last line has no end, and the next one is empty
    if line = [] ∨ (parseHeader line).isSome then .error (closedWaiting h method)
    else .error (invalidHeader h line)
  | b :: rest =>
    let line := line ++ [b]
    if b = 10 then
      if line = [13, 10] ∨ line = [10] then .ok (headers, rest)
      else
        match parseHeader line with
        | none => .error (invalidHeader h line)
        | some entry => readHeaders [] (headers ++ [entry]) rest
    else readHeaders line headers rest

/-- `body.decode("utf-8")` and `json.loads` -/
def parseBody (body : Bytes) : Option PyValue :=
  (PyText.decodeUtf8 body).bind (PyJson.loads h.floatRepr)

def readMessage (stdout : Pipe) : Except PyText (PyValue × Pipe) := do
  let (headers, rest) ← readHeaders h method [] [] stdout.data
  match header "content-length" headers with
  | none => .error (lit "Missing Content-Length header from " ++ h.serverName ++ lit ".")
  | some contentLength =>
    match parseInt contentLength with
    | none => .error (lit "Invalid Content-Length header from " ++ h.serverName ++ lit ": " ++
        h.reprOfText contentLength)
    | some length =>
      if maxMcpResponseBytes < length then
        .error (lit "MCP response from " ++ h.serverName ++ lit " exceeds " ++
          lit (toString maxMcpResponseBytes) ++ lit "-byte limit (" ++ lit (toString length) ++
          lit " bytes).")
      else
        let (body, stdout) := { stdout with data := rest }.read length
        if (body.length : ℤ) ≠ length then
          .error (lit "MCP server closed while reading body for " ++ method ++ lit ": " ++ h.stderr)
        else
          match parseBody h body with
          | some message => .ok (message, stdout)
          | none => .error (lit "MCP server " ++ h.serverName ++ lit " sent malformed JSON: " ++
              h.malformed body)

/-- Calls of `_read_message` in a row. -/
def readMessages : ℕ → Pipe → Except PyText (List PyValue × Pipe)
  | 0, stdout => .ok ([], stdout)
  | n + 1, stdout => do
    let (message, stdout) ← readMessage h method stdout
    let (messages, stdout) ← readMessages n stdout
    return (message :: messages, stdout)

structure Session where
  requestId : ℕ
  /-- what was written to the server -/
  stdin : Bytes
  stdout : Pipe

def frame (body : Bytes) : Bytes :=
  encodeAscii (lit ("Content-Length: " ++ toString body.length ++ "\r\n\r\n")) ++ body

/-- `_send_message` -/
def Session.send (s : Session) (payload : PyDict) : Session :=
  { s with stdin := s.stdin ++ frame (encodeAscii (PyJson.dumps (.dict payload))) }

/-- `v == n` -/
def equalsInt (v : PyValue) (n : ℤ) : Bool :=
  match v with
  | .bool b => (if b then 1 else 0) = n
  | .int m => m = n
  | .float r => h.floatIs r n
  | _ => false

/-- What the loop of `_rpc` does with a message: it goes on, or ends. -/
inductive Outcome where
  | skipped
  | done (result : Except PyText PyValue)

def isOwn (requestId : ℕ) (message : PyDict) : Bool :=
  (PyValue.get? (lit "id") message).any fun v => equalsInt h v requestId

def respond (message : PyDict) : Except PyText PyValue :=
  match PyValue.get? (lit "error") message with
  | some error =>
    .error (lit "MCP error from " ++ h.serverName ++ lit ": " ++ PyValue.text h.reprOf error)
  | none => .ok ((PyValue.get? (lit "result") message).getD (.dict []))

def isId : PyValue → Bool
  | .str s => s = lit "id"
  | _ => false

/-- One message in the loop; one that is no object has no `get`, or cannot be searched. -/
def handle (requestId : ℕ) : PyValue → Outcome
  | .dict message => if isOwn h requestId message then .done (respond h message) else .skipped
  | .list items =>
    if items.any isId then .done (.error (lit "'list' object has no attribute 'get'")) else .skipped
  | .str s =>
    if lit "id" <:+: s then .done (.error (lit "'str' object has no attribute 'get'")) else .skipped
  | _ => .done (.error (lit "argument is not iterable"))

/-- The loop of `_rpc`; every message takes some bytes, so that the bytes bound its turns. -/
def awaitResponse (requestId : ℕ) : ℕ → Pipe → Except PyText (PyValue × Pipe)
  | 0, _ => .error (closedWaiting h method)
  | fuel + 1, stdout => do
    let (message, stdout) ← readMessage h method stdout
    match handle h requestId message with
    | .skipped => awaitResponse requestId fuel stdout
    | .done result => result.map fun r => (r, stdout)

def rpc (params : PyDict) (s : Session) : Except PyText (PyValue × Session) := do
  let requestId := s.requestId + 1
  let payload : PyDict := [(lit "jsonrpc", .str (lit "2.0")), (lit "id", .int requestId),
    (lit "method", .str method), (lit "params", .dict params)]
  let s := { s with requestId := requestId }.send payload
  let (result, stdout) ← awaitResponse h method requestId (s.stdout.data.length + 1) s.stdout
  return (result, { s with stdout := stdout })

end ClawHarder.Mcp
