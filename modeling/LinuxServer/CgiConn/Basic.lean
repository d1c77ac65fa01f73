import LinuxServer.Core.Lines
import LinuxServer.Core.Trace

/-!
# A CGI connection

`cgi_conn` of `processpool_cgi.cpp`: the bytes of a client are received into `m_buf` until there is a
CR LF pair; what stands before it names a program, which a child process runs on the socket. A
turn of the loop of `process` is a step, with what `recv` returned in it. A function is `none` where it
would read or write outside of `m_buf`.
-/

namespace LinuxServer

open Core

/-- `cgi_conn` -/
structure CgiConn where
  epollFd : ℤ
  sockfd : ℤ
  buf : Bytes
  readIdx : ℕ

namespace CgiConn

/-- `BUFFER_SIZE` -/
def bufferSize : ℕ := 1024

/-- What a call of `recv` returns. -/
inductive Recv
  | data (chunk : Bytes)
  /-- 0 -/
  | zero
  /-- -1 with `EAGAIN` -/
  | eagain
  /-- -1 with another error -/
  | error

/-- What a connection does to the system. -/
inductive Effect
  | access (name : Bytes)
  | removefd (epollFd sockfd : ℤ)
  /-- In the child of a `fork`: the socket becomes the standard input, and the program is run. -/
  | execl (sockfd : ℤ) (name : Bytes)
  deriving DecidableEq

/-- What the system answers. -/
structure System where
  /-- `access(name, F_OK) != -1` -/
  access : Bytes → Bool
  /-- `fork() != -1` -/
  fork : Bool

/-- `init(epoll_fd, sockfd, client_addr)` -/
def init (epollFd sockfd : ℤ) : CgiConn := ⟨epollFd, sockfd, List.replicate bufferSize 0, 0⟩

/-- The bytes that `recv` is asked for. -/
def asked (s : CgiConn) : ℕ := bufferSize - 1 - s.readIdx

/-- `recv` does not return more than it is asked for, and nothing when it is asked for nothing. -/
def Recv.Valid (asked : ℕ) : Recv → Prop
  | .data chunk => chunk ≠ [] ∧ chunk.length ≤ asked
  | .zero => True
  | .eagain => asked ≠ 0
  | .error => asked ≠ 0

instance (asked : ℕ) : (r : Recv) → Decidable (r.Valid asked)
  | .data chunk => inferInstanceAs (Decidable (chunk ≠ [] ∧ chunk.length ≤ asked))
  | .zero => inferInstanceAs (Decidable True)
  | .eagain => inferInstanceAs (Decidable (asked ≠ 0))
  | .error => inferInstanceAs (Decidable (asked ≠ 0))

/-- A chunk is received behind the bytes that are there. -/
def recv (s : CgiConn) (chunk : Bytes) : Option CgiConn :=
  if s.readIdx + chunk.length ≤ s.buf.length then
    some { s with
      buf := s.buf.take s.readIdx ++ chunk ++ s.buf.drop (s.readIdx + chunk.length)
      readIdx := s.readIdx + chunk.length }
  else
    none

/-- `(idx >= 1) && (m_buf[idx-1] == '\r') && (m_buf[idx] == '\n')` -/
def pairEndsAt (s : CgiConn) (idx : ℕ) : Option Bool :=
  if 1 ≤ idx then do
    let prev ← s.buf[idx - 1]?
    if prev = cr then do
      let c ← s.buf[idx]?
      some (c == lf)
    else
      some false
  else
    some false

/-- The `for` loop of `process`, with `n` bytes to `m_read_idx`. -/
def scanLoop (s : CgiConn) : ℕ → ℕ → Option ℕ
  | 0, idx => some idx
  | n + 1, idx => do
    if ← s.pairEndsAt idx then some idx else s.scanLoop n (idx + 1)

/-- The end of `process`, with a pair at `idx - 1`. -/
def serve (sys : System) (s : CgiConn) (idx : ℕ) : Option (List Effect × CgiConn) := do
  let buf ← nulAt s.buf (idx - 1)
  let s := { s with buf := buf }
  let name ← textAt s.buf 0
  if sys.access name = false then
    some ([.access name, .removefd s.epollFd s.sockfd], s)
  else if sys.fork = false then
    some ([.access name, .removefd s.epollFd s.sockfd], s)
  else
    some ([.access name, .execl s.sockfd name, .removefd s.epollFd s.sockfd], s)

/-- A turn of the loop of `process`: what it does, and whether there is another one. The received
bytes are printed, which reads `m_buf` as a text. -/
def turn (sys : System) (s : CgiConn) : Recv → Option (List Effect × Bool × CgiConn)
  | .error => some ([.removefd s.epollFd s.sockfd], false, s)
  | .eagain => some ([], false, s)
  | .zero => some ([.removefd s.epollFd s.sockfd], false, s)
  | .data chunk => do
    let idx := s.readIdx
    let s ← s.recv chunk
    let _ ← textAt s.buf 0
    let idx ← s.scanLoop (s.readIdx - idx) idx
    if idx = s.readIdx then
      some ([], true, s)
    else do
      let (effects, s) ← s.serve sys idx
      some (effects, false, s)

/-- A call of `process`, with what the calls of `recv` in it return. -/
def process (sys : System) (s : CgiConn) : List Recv → Option (List Effect × CgiConn)
  | [] => none
  | r :: rest => do
    let (effects, again, s) ← s.turn sys r
    if again then do
      let (more, s) ← s.process sys rest
      some (effects ++ more, s)
    else
      some (effects, s)

/-- A connection between two calls of `recv` or of `process`, and what it has done. -/
structure Serving where
  conn : CgiConn
  inProcess : Bool
  effects : List Effect

/-- After `init`. -/
def Serving.init (epollFd sockfd : ℤ) : Serving := ⟨CgiConn.init epollFd sockfd, false, []⟩

inductive Event
  | process
  | recv (r : Recv)

/-- `process` is called as long as the descriptor is registered; in it, `recv` is called. -/
inductive Step (sys : System) : Serving → Event → Serving → Prop
  | process {t : Serving} : t.inProcess = false →
      Effect.removefd t.conn.epollFd t.conn.sockfd ∉ t.effects →
      Step sys t .process { t with inProcess := true }
  | recv {t : Serving} {r : Recv} {effects : List Effect} {again : Bool} {conn : CgiConn} :
      t.inProcess = true → r.Valid t.conn.asked → t.conn.turn sys r = some (effects, again, conn) →
      Step sys t (.recv r) ⟨conn, again, t.effects ++ effects⟩

/-- The bytes received in a trace. -/
def received (es : List Event) : Bytes :=
  es.flatMap fun
    | .recv (.data chunk) => chunk
    | _ => []

/-- The stream has ended or failed, or there was no room left. -/
def ended (es : List Event) : Bool :=
  es.any fun
    | .recv .zero => true
    | .recv .error => true
    | _ => false

end CgiConn

end LinuxServer
