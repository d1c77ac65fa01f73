import LinuxServer.ParseLine

/-!
# The request parser

`parse_http.cpp`: a request is parsed line by line in the buffer it is received into. The parsers of a
line write NULs into it. A function is `none` where it would read or write past the end of the buffer.
-/

namespace LinuxServer

open Core

namespace ParseHttp

/-- `HTTP_CODE` -/
inductive HttpCode
  | noRequest
  | getRequest
  | badRequest
  | forbiddenRequest
  | internalError
  | closedConnection
  deriving DecidableEq

/-- `CHECK_STATE` -/
inductive CheckState
  | requestLine
  | header
  deriving DecidableEq

/-- The variables of `main` that the parser works on. -/
structure Parser where
  buffer : Bytes
  checkedIndex : ℕ
  readIndex : ℕ
  startLine : ℕ
  checkState : CheckState

/-- `"GET"` -/
def get : Bytes := ascii ['G', 'E', 'T']

/-- `"HTTP/1.1"` -/
def http11 : Bytes := ascii ['H', 'T', 'T', 'P', '/', '1', '.', '1']

/-- `"http://"` -/
def http : Bytes := ascii ['h', 't', 't', 'p', ':', '/', '/']

/-- `"Host:"` -/
def hostName : Bytes := ascii ['H', 'o', 's', 't', ':']

/-- `'/'` -/
def slash : UInt8 := 47

namespace Parser

/-- `BUFFER_SIZE` -/
def bufferSize : ℕ := 4096

/-- At the start of a connection. -/
def init : Parser := ⟨List.replicate bufferSize 0, 0, 0, 0, .requestLine⟩

/-- `*p = '\0'` -/
def putNul (s : Parser) (p : ℕ) : Option Parser :=
  (nulAt s.buffer p).map fun buffer => { s with buffer := buffer }

/-- The path of the URL at `url`: behind `http://` it begins at the next slash. -/
def urlPath (s : Parser) (url : ℕ) : Option (Option ℕ) := do
  let t ← textAt s.buffer url
  if caseEqN 7 t http then do
    let t ← textAt s.buffer (url + 7)
    some ((strchr t slash).map (url + 7 + ·))
  else
    some (some url)

/-- The check of the URL at `url`: its path, if it has one and it begins with a slash. -/
def checkUrl (s : Parser) (url : ℕ) : Option (Option ℕ) := do
  match ← s.urlPath url with
  | none => some none
  | some url => do
    let c ← s.buffer[url]?
    some (if c = slash then some url else none)

/-- The end of `parse_request_line`: the version at `version` and the URL at `url` are checked. The
text of the URL is read to be printed. -/
def parseVersion (s : Parser) (url version : ℕ) : Option (HttpCode × Parser) := do
  let version := version + strspn (← textAt s.buffer version)
  let v ← textAt s.buffer version
  if caseEq v http11 = false then
    some (.badRequest, s)
  else do
    match ← s.checkUrl url with
    | none => some (.badRequest, s)
    | some url => do
      let _ ← textAt s.buffer url
      some (.noRequest, { s with checkState := .header })

/-- `parse_request_line` from the blanks behind the method on. -/
def parseUrl (s : Parser) (url : ℕ) : Option (HttpCode × Parser) := do
  let url := url + strspn (← textAt s.buffer url)
  match strpbrk (← textAt s.buffer url) with
  | none => some (.badRequest, s)
  | some j => do
    let s ← s.putNul (url + j)
    s.parseVersion url (url + j + 1)

/-- `parse_request_line(temp, check_state)` -/
def parseRequestLine (s : Parser) (temp : ℕ) : Option (HttpCode × Parser) := do
  match strpbrk (← textAt s.buffer temp) with
  | none => some (.badRequest, s)
  | some i => do
    let s ← s.putNul (temp + i)
    let method ← textAt s.buffer temp
    if caseEq method get = false then some (.badRequest, s) else s.parseUrl (temp + i + 1)

/-- The text behind `Host:` and blanks in the line at `temp`. -/
def hostValue (s : Parser) (temp : ℕ) : Option Bytes := do
  let t ← textAt s.buffer (temp + 5)
  textAt s.buffer (temp + 5 + strspn t)

/-- `parse_headers(temp)`. The value of a `Host` line is read to be printed. -/
def parseHeaders (s : Parser) (temp : ℕ) : Option HttpCode := do
  let c ← s.buffer[temp]?
  if c = 0 then
    some .getRequest
  else do
    let t ← textAt s.buffer temp
    if caseEqN 5 t hostName then do
      let _ ← s.hostValue temp
      some .noRequest
    else
      some .noRequest

/-- What `parse_content` does with a finished line, with its result in `retcode`. -/
def handleLine (s : Parser) : Option (HttpCode × Parser) :=
  let temp := s.startLine
  let s := { s with startLine := s.checkedIndex }
  match s.checkState with
  | .requestLine => s.parseRequestLine temp
  | .header => (s.parseHeaders temp).map (·, s)

/-- The loop of `parse_content`. Every turn takes a line, so there are at most as many as bytes. -/
def parseContentLoop : ℕ → Parser → Option (HttpCode × Parser)
  | 0, _ => none
  | fuel + 1, s => do
    let (linestatus, buffer, checkedIndex) ← parseLine s.buffer s.checkedIndex s.readIndex
    let s := { s with buffer := buffer, checkedIndex := checkedIndex }
    match linestatus with
    | .lineOpen => some (.noRequest, s)
    | .lineBad => some (.badRequest, s)
    | .lineOk => do
      let (retcode, s) ← s.handleLine
      if retcode = .badRequest then some (.badRequest, s)
      else if retcode = .getRequest then some (.getRequest, s)
      else parseContentLoop fuel s

/-- `parse_content(buffer, checked_index, check_state, read_index, start_line)` -/
def parseContent (s : Parser) : Option (HttpCode × Parser) :=
  parseContentLoop (s.readIndex - s.checkedIndex + 1) s

/-- `recv` of a chunk into the buffer; it never returns more than there is room for. -/
def recv (s : Parser) (chunk : Bytes) : Option Parser :=
  if s.readIndex + chunk.length ≤ s.buffer.length then
    some { s with
      buffer := s.buffer.take s.readIndex ++ chunk ++ s.buffer.drop (s.readIndex + chunk.length)
      readIndex := s.readIndex + chunk.length }
  else
    none

/-- `parse_content` after each chunk, until the first result other than `NO_REQUEST`. -/
def parseChunks : List Bytes → Parser → Option (HttpCode × Parser)
  | [], s => some (.noRequest, s)
  | chunk :: chunks, s => do
    let (code, s) ← (← s.recv chunk).parseContent
    if code = .noRequest then parseChunks chunks s else some (code, s)

end Parser

end ParseHttp

end LinuxServer
