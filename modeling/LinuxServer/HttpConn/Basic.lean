import LinuxServer.ParseHttp.Basic
import LinuxServer.Core.Trace

/-!
# Reading a request in `http_conn`

The members of `http_conn` that `process_read` works on, and the functions it calls. A pointer into
`m_read_buf` is the index it points to. A function is `none` where it would read or write outside of
`m_read_buf`.

What the functions print has no effect on the connection. For every line there is a `printf` with a
`%s` and no argument to it; it is taken to print something and to do nothing else. `do_request` is only
named.
-/

namespace LinuxServer

open Core

namespace HttpConn

/-- `METHOD` -/
inductive Method
  | get
  | post
  | head
  | put
  | delete
  | trace
  | options
  | connect
  | patch
  deriving DecidableEq

/-- `CHECK_STATE` -/
inductive CheckState
  | requestLine
  | header
  | content
  deriving DecidableEq

/-- `HTTP_CODE` -/
inductive HttpCode
  | noRequest
  | getRequest
  | badRequest
  | noResource
  | forbiddenRequest
  | fileRequest
  | internalError
  | closedConnect
  deriving DecidableEq

end HttpConn

open HttpConn in
/-- The members that reading a request works on. -/
structure HttpConn where
  readBuf : Bytes
  readIdx : ℕ
  checkedIdx : ℕ
  startLine : ℕ
  checkState : CheckState
  method : Method
  url : Option ℕ
  version : Option ℕ
  host : Option ℕ
  contentLength : ℕ
  linger : Bool

namespace HttpConn

open ParseHttp (get http11 http slash)

/-- `READ_BUFFER_SIZE` -/
def readBufferSize : ℕ := 2048

/-- `"Connection:"` -/
def connection : Bytes := ascii ['C', 'o', 'n', 'n', 'e', 'c', 't', 'i', 'o', 'n', ':']

/-- `"keep-alive"` -/
def keepAlive : Bytes := ascii ['k', 'e', 'e', 'p', '-', 'a', 'l', 'i', 'v', 'e']

/-- `"Host:"` -/
def hostName : Bytes := ascii ['H', 'o', 's', 't', ':']

/-- `init()` -/
def init : HttpConn where
  readBuf := List.replicate readBufferSize 0
  readIdx := 0
  checkedIdx := 0
  startLine := 0
  checkState := .requestLine
  method := .get
  url := none
  version := none
  host := none
  contentLength := 0
  linger := false

/-- `*p = '\0'` -/
def putNul (s : HttpConn) (p : ℕ) : Option HttpConn :=
  (nulAt s.readBuf p).map fun readBuf => { s with readBuf := readBuf }

/-- `m_url` behind the check for `http://`. The `!` negates what `strncasecmp` returns, and not the
comparison with 0, so that it is the other URLs of which seven bytes are skipped. -/
def urlPath (s : HttpConn) (url : ℕ) : Option (Option ℕ) := do
  if (← caseEqNAt 7 http s.readBuf url) = false then do
    let j ← strchrAt slash s.readBuf (url + 7)
    some (j.map (url + 7 + ·))
  else
    some (some url)

/-- The end of `parse_request_line`: the version at `version` and the URL at `url` are checked. -/
def parseVersion (s : HttpConn) (url version : ℕ) : Option (HttpCode × HttpConn) := do
  let version := version + (← strspnAt s.readBuf version)
  let s := { s with version := some version }
  if (← caseEqAt http11 s.readBuf version) = false then
    some (.badRequest, s)
  else do
    match ← s.urlPath url with
    | none => some (.badRequest, { s with url := none })
    | some p => do
      let c ← s.readBuf[p]?
      if c = slash then
        some (.noRequest, { s with url := some p, checkState := .header })
      else
        some (.badRequest, { s with url := some p })

/-- `parse_request_line` from the blanks behind the method on. -/
def parseUrl (s : HttpConn) (url : ℕ) : Option (HttpCode × HttpConn) := do
  let url := url + (← strspnAt s.readBuf url)
  let s := { s with url := some url }
  match ← strpbrkAt s.readBuf url with
  | none => some (.badRequest, { s with version := none })
  | some j => do
    let s ← s.putNul (url + j)
    s.parseVersion url (url + j + 1)

/-- `parse_request_line(text)` -/
def parseRequestLine (s : HttpConn) (text : ℕ) : Option (HttpCode × HttpConn) := do
  match ← strpbrkAt s.readBuf text with
  | none => some (.badRequest, { s with url := none })
  | some i => do
    let s ← s.putNul (text + i)
    let s := { s with url := some (text + i + 1) }
    if (← caseEqAt get s.readBuf text) = false then
      some (.badRequest, s)
    else do
      let s := { s with method := .get }
      s.parseUrl (text + i + 1)

/-- `parse_headers(text)`. An unknown header is printed, which reads its text. -/
def parseHeaders (s : HttpConn) (text : ℕ) : Option (HttpCode × HttpConn) := do
  let c ← s.readBuf[text]?
  if c = 0 then
    if s.contentLength ≠ 0 then
      some (.noRequest, { s with checkState := .content })
    else
      some (.getRequest, s)
  else if ← caseEqNAt 1 connection s.readBuf text then do
    let value := text + 1 + (← strspnAt s.readBuf (text + 1))
    let keep ← caseEqAt keepAlive s.readBuf value
    some (.noRequest, if keep then { s with linger := true } else s)
  else if ← caseEqNAt 5 hostName s.readBuf text then do
    let value := text + 5 + (← strspnAt s.readBuf (text + 5))
    some (.noRequest, { s with host := some value })
  else do
    let _ ← textAt s.readBuf text
    some (.noRequest, s)

/-- `parse_content(text)` -/
def parseContent (s : HttpConn) (text : ℕ) : Option (HttpCode × HttpConn) :=
  if s.contentLength + s.checkedIdx ≤ s.readIdx then do
    let s ← s.putNul (text + s.contentLength)
    some (.getRequest, s)
  else
    some (.noRequest, s)

/-- What a `return` of `process_read` returns. -/
inductive Returned
  | code (code : HttpCode)
  | doRequest
  deriving DecidableEq

/-- The body of the loop of `process_read` up to its last statement: the line at `m_start_line` is
handed to the parser of the state. `none` when the `switch` is left by a `break`. -/
def handLine (s : HttpConn) : Option (Option Returned × HttpConn) :=
  let text := s.startLine
  let s := { s with startLine := s.checkedIdx }
  match s.checkState with
  | .requestLine => do
    let (ret, s) ← s.parseRequestLine text
    some (if ret = .badRequest then some (.code .badRequest) else none, s)
  | .header => do
    let (ret, s) ← s.parseHeaders text
    some (if ret = .badRequest then some (.code .badRequest)
      else if ret = .getRequest then some .doRequest else none, s)
  | .content => do
    let (ret, s) ← s.parseContent text
    some (if ret = .getRequest then some .doRequest else none, s)

/-- A call: what it returns, if it returns a value, and the lines that it hands to the parsers, each
with the state that it does so in. -/
structure Call where
  returned : Option Returned
  handed : List (CheckState × ℕ)
  conn : HttpConn

/-- The condition of the loop of `process_read`, with `line_status` as it was set at the beginning.
`==` groups to the left: the truth value of `line_status == parse_line()` is compared with `LINE_OK`,
which is 0. -/
def loopCondition (s : HttpConn) (lineStatus : LineStatus) : Option (Bool × HttpConn) :=
  if s.checkState = .content ∧ lineStatus = .lineOk then
    some (true, s)
  else do
    let (status, readBuf, checkedIdx) ← parseLine s.readBuf s.checkedIdx s.readIdx
    some ((decide (lineStatus = status)).toNat == 0,
      { s with readBuf := readBuf, checkedIdx := checkedIdx })

/-- `process_read()`. The body ends with a `return`, so it is run once or not at all; behind the loop
there is no `return`. -/
def processRead (s : HttpConn) : Option Call := do
  let (again, s) ← s.loopCondition .lineOk
  if again then do
    let (ret, s') ← s.handLine
    some ⟨some (ret.getD (.code .noRequest)), [(s.checkState, s.startLine)], s'⟩
  else
    some ⟨none, [], s⟩

/-- Bytes are appended to the read buffer. -/
def append (s : HttpConn) (chunk : Bytes) : HttpConn :=
  { s with
    readBuf := s.readBuf.take s.readIdx ++ chunk ++ s.readBuf.drop (s.readIdx + chunk.length)
    readIdx := s.readIdx + chunk.length }

inductive Event
  | append (chunk : Bytes)
  | processRead (call : Call)

/-- Bytes that fit are appended, and `process_read` is called. -/
inductive Step : HttpConn → Event → HttpConn → Prop
  | append {s : HttpConn} {chunk : Bytes} : s.readIdx + chunk.length ≤ readBufferSize →
      Step s (.append chunk) (s.append chunk)
  | processRead {s : HttpConn} {call : Call} : s.processRead = some call →
      Step s (.processRead call) call.conn

end HttpConn

end LinuxServer
