import LinuxServer.HttpConn.Answering
import LinuxServer.HttpConn.Reading

/-!
# A connection of `http_conn`

`http_conn` with all that `init`, `do_request`, `process`, `write` and `close_conn` work on. What the
file system says is part of the call. A call of `process` is `none` when `process_read` runs off
its end, when it works outside of a buffer, and when `do_request` has no URL.

`m_address` is set and not read.
-/

namespace LinuxServer

open Core

namespace HttpConn

/-- What `stat` says of a file. -/
structure Stat where
  mode : BitVec 32
  size : ℕ
  deriving DecidableEq

/-- The answers of the file system: `stat` by the path, and the address at which `mmap` maps a file. -/
structure FileSystem where
  stat : Bytes → Option Stat
  mmap : Bytes → ℕ → ℕ

/-- `http_conn`. The mode stands beside the size of `m_file_stat`. -/
structure Serving extends Answering where
  mSockfd : Option ℕ
  stMode : BitVec 32

/-- `doc_root` -/
def docRoot : Bytes := ascii "/var/www/html".toList

/-- `S_IROTH` -/
def sIRoth : BitVec 32 := 0o4

/-- `S_IFMT` -/
def sIFmt : BitVec 32 := 0o170000

/-- `S_IFDIR` -/
def sIFDir : BitVec 32 := 0o040000

/-- Besides `do_request`, `process_read` calls for nothing but more bytes or the answer to a bad request. -/
lemma processRead_code {s : HttpConn} {call : Call} {code : HttpCode} (h : s.processRead = some call)
    (hcode : call.returned = some (.code code)) : code = .noRequest ∨ code = .badRequest := by
  obtain ⟨⟨again, s₁⟩, -, h⟩ := Option.bind_eq_some_iff.mp h
  dsimp only at h
  split at h
  next =>
    obtain ⟨⟨ret, s'⟩, hhand, h⟩ := Option.bind_eq_some_iff.mp h
    cases h
    cases ret with
    | none =>
      cases hcode
      exact .inl rfl
    | some r =>
      obtain rfl : r = .code code := Option.some.inj hcode
      rcases handLine_some hhand with hr | hr
      · cases hr
        exact .inr rfl
      · cases hr
  next =>
    cases h
    cases hcode

namespace Serving

open Answering (Writev Effect)

/-- `init(sockfd, addr)` -/
def initConn (s : Serving) (sockfd : ℕ) : Serving :=
  { s with
    toAnswering := s.toAnswering.init
    mSockfd := some sockfd }

/-- What `recv` puts into the read buffer: no more than there is room for. -/
def receive (s : Serving) (chunk : Bytes) : Serving :=
  { s with toHttpConn := s.toHttpConn.append (chunk.take (readBufferSize - s.readIdx)) }

/-- `close_conn()` -/
def closeConn (s : Serving) : Serving := { s with mSockfd := none }

/-- What `process_read` comes to: the code, the path that was looked up, and the address and the size of
the mapping that was made. -/
structure Lookup where
  code : HttpCode
  path : Option Bytes
  mapped : Option (ℕ × ℕ)
  conn : Serving

/-- `strcpy` and `strncpy` of `do_request`. -/
def setRealFile (s : Serving) (name : Bytes) : Serving :=
  { s with realFile := putAt (putAt s.realFile 0 (docRoot ++ [0])) docRoot.length name }

/-- `do_request` from `stat` on. -/
def openFile (s : Serving) (fs : FileSystem) (path : Bytes) : Lookup :=
  match fs.stat path with
  | none => ⟨.noResource, some path, none, s⟩
  | some st =>
    let s := { s with fileStat := ⟨st.size⟩, stMode := st.mode }
    if s.stMode &&& sIRoth = 0 then
      ⟨.forbiddenRequest, some path, none, s⟩
    else if s.stMode &&& sIFmt = sIFDir then
      ⟨.badRequest, some path, none, s⟩
    else
      let address := fs.mmap path s.fileStat.size
      ⟨.fileRequest, some path, some (address, s.fileStat.size), { s with fileAddress := some address }⟩

/-- `do_request()` -/
def doRequest (s : Serving) (fs : FileSystem) : Option Lookup := do
  let url ← s.url
  let name ← strncpyAt (filenameLen - docRoot.length - 1) s.readBuf url
  let s := s.setRealFile name
  let path ← textAt s.realFile 0
  some (s.openFile fs path)

/-- `process_read()`, with `do_request` where it calls it. -/
def readRequest (s : Serving) (fs : FileSystem) : Option Lookup := do
  let call ← s.processRead
  let s := { s with toHttpConn := call.conn }
  match ← call.returned with
  | .code code => some ⟨code, none, none, s⟩
  | .doRequest => s.doRequest fs

/-- A call of `process`: what `process_read` came to, and what `process_write` returned if it was
called. -/
structure Processed where
  lookup : Lookup
  written : Option Bool
  conn : Serving

/-- `process` behind `process_read`. -/
def answer (lengthLine : ℤ → Bytes) (lookup : Lookup) : Processed :=
  if lookup.code = .noRequest then
    ⟨lookup, none, lookup.conn⟩
  else
    let (written, answering) := lookup.conn.processWrite lengthLine lookup.code
    let s := { lookup.conn with toAnswering := answering }
    ⟨lookup, some written, if written = false then s.closeConn else s⟩

/-- `process()` -/
def process (lengthLine : ℤ → Bytes) (s : Serving) (fs : FileSystem) : Option Processed :=
  (s.readRequest fs).map (answer lengthLine)

/-- The loop of `write`, with what `writev` returns in its turns; no value is returned when the loop goes
on. -/
def writeLoop (s : Answering) : List Writev → List Effect × Option Bool × Answering
  | [] => ([], none, s)
  | r :: rs =>
    match s.writeTurn r with
    | (effects, some returned, s) => (effects, some returned, s)
    | (effects, none, s) =>
      let (effects', returned, s) := writeLoop s rs
      (effects ++ effects', returned, s)

/-- `write()`: what it does besides, and what it returns. -/
def write (s : Serving) (rs : List Writev) : List Effect × Option Bool × Serving :=
  match s.writeBegin with
  | (effects, some returned, a) => (effects, some returned, { s with toAnswering := a })
  | (effects, none, a) =>
    let (effects', returned, a) := writeLoop a rs
    (effects ++ effects', returned, { s with toAnswering := a })

end Serving

end HttpConn

end LinuxServer
