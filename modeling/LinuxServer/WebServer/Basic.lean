import LinuxServer.ThreadPool.Basic
import LinuxServer.Core.Places

/-!
# The web server

The event loop of `web_server.cpp`, the pool of threads it hands connections to, and what moves a
connection between them in `http_conn.cpp`: the one-shot arming of `add_fd` and `mod_fd`, `append`,
`process` and `close_conn`. The main loop and the workers take their steps in any order. What
`read`, `write`, `process_read` and `process_write` find is part of the event; what they do to the
connection for it is done as the source does it.

The connection `users + k` is named by `k`, which is the descriptor it was initialised with. That
`epoll_wait` fails, which ends the server, is no step.
-/

namespace LinuxServer

open Core

namespace WebServer

/-- Where a worker is in `http_conn::process`: before its answer is known, in `close_conn` behind
`remove_fd`, or at the last call of `mod_fd`. -/
inductive ProcessAt
  | read
  | close
  | modFd
  deriving DecidableEq

/-- What `epoll_wait` reports of a connection. -/
structure Events where
  epollIn : Bool
  epollOut : Bool
  /-- `EPOLLHUP`, `EPOLLRDHUP` or `EPOLLERR` -/
  hangUp : Bool
  deriving DecidableEq

/-- An entry of `events`. -/
inductive Ready
  | listen
  | conn (fd : ℕ) (events : Events)
  deriving DecidableEq

def Ready.fd? : Ready → Option ℕ
  | .listen => none
  | .conn fd _ => some fd

/-- The ways through `write`: nothing is to be sent, `EAGAIN`, another error, all is sent. -/
inductive Write
  | nothing
  | again
  | error
  | sent
  deriving DecidableEq

/-- What `process_read` and `process_write` come to in `process`. -/
inductive Answer
  | noRequest
  | written
  | failed
  deriving DecidableEq

end WebServer

open WebServer in
/-- The server. `fds` are the descriptors of open connections, `armed` those of which `epoll` will
report an event, `batch` the entries of `events` that the loop has still to handle. -/
structure WebServer (W : Type*) where
  pool : ThreadPool W Unit ℕ
  place : W → ProcessAt
  batch : List Ready
  fds : Finset ℕ
  armed : Finset ℕ
  mSockfd : ℕ → Option ℕ
  mUserCount : ℤ

namespace WebServer

variable {W : Type*}

/-- `MAX_FD` -/
def maxFd : ℤ := 65536

/-- At the first call of `epoll_wait`. `m_sockfd` is not initialised before `init`. -/
def start (maxRequest : ℕ) (mSockfd : ℕ → Option ℕ) : WebServer W where
  pool := .init maxRequest
  place _ := .read
  batch := []
  fds := ∅
  armed := ∅
  mSockfd := mSockfd
  mUserCount := 0

/-- `users[fd].init(fd, addr)` -/
def init (s : WebServer W) (fd : ℕ) : WebServer W :=
  { s with
    mSockfd := Function.update s.mSockfd fd (some fd)
    fds := insert fd s.fds
    armed := insert fd s.armed
    mUserCount := s.mUserCount + 1 }

/-- `mod_fd(m_epoll_fd, m_sockfd, ev)` of the connection `k`: it fails on a descriptor that is closed. -/
def modFd (s : WebServer W) (k : ℕ) : WebServer W :=
  match s.mSockfd k with
  | none => s
  | some fd => if fd ∈ s.fds then { s with armed := insert fd s.armed } else s

/-- `remove_fd(m_epoll_fd, fd)` -/
def removeFd (s : WebServer W) (fd : ℕ) : WebServer W :=
  { s with fds := s.fds.erase fd, armed := s.armed.erase fd }

/-- The end of `close_conn`, behind `remove_fd`. -/
def unset (s : WebServer W) (k : ℕ) : WebServer W :=
  { s with mSockfd := Function.update s.mSockfd k none, mUserCount := s.mUserCount - 1 }

/-- `close_conn()` of the connection `k` -/
def closeConn (s : WebServer W) (k : ℕ) : WebServer W :=
  match s.mSockfd k with
  | none => s
  | some fd => (s.removeFd fd).unset k

/-- The loop goes on to the next entry. -/
def next (s : WebServer W) (rest : List Ready) : WebServer W := { s with batch := rest }

/-- A connection is accepted as `fd`. -/
def accept (s : WebServer W) (fd : ℕ) : WebServer W :=
  if maxFd ≤ s.mUserCount then s else s.init fd

/-- `users[k].write()`, and `close_conn` when it returns false. -/
def write (s : WebServer W) (k : ℕ) : Write → WebServer W
  | .nothing => s.modFd k
  | .again => s.modFd k
  | .error => s.closeConn k
  | .sent => (s.modFd k).closeConn k

variable [DecidableEq W]

/-- `users[k].read()`, and what follows on what it returns. -/
def read (s : WebServer W) (k : ℕ) : Bool → WebServer W
  | true => { s with pool := (s.pool.append () (some k)).2 }
  | false => s.closeConn k

/-- A worker is at its next place in `process`. -/
def goto (s : WebServer W) (w : W) (place : ProcessAt) : WebServer W :=
  { s with place := Function.update s.place w place }

/-- `process` returns. -/
def done (s : WebServer W) (w : W) : WebServer W := { s with pool := s.pool.goto w .wait }

/-- What `process` does with an answer: it gives the connection back to `epoll`, or goes into
`close_conn` and on to `mod_fd`. -/
def answer (s : WebServer W) (w : W) (k : ℕ) : Answer → WebServer W
  | .noRequest => (s.modFd k).done w
  | .written => (s.modFd k).done w
  | .failed =>
    match s.mSockfd k with
    | none => s.goto w .modFd
    | some fd => (s.removeFd fd).goto w .close

inductive Event (W : Type*)
  | epollWait (batch : List Ready)
  | acceptFails
  | accept (fd : ℕ)
  | read (drained : Bool)
  | write (result : Write)
  | hangUp
  | post
  /-- A worker comes to its next request. -/
  | pool (e : ThreadPool.Event W Unit ℕ)
  | answer (w : W) (answer : Answer)
  | unset (w : W)
  | modFd (w : W)

/-- The steps of the pool that are not the main loop's and not the end of `process`. -/
def Fetches : ThreadPool.Event W Unit ℕ → Prop
  | .wait _ => True
  | .interrupt _ => True
  | .pop _ => True
  | _ => False

/-- A worker that has popped begins `process`. -/
def fetch (s : WebServer W) (pool : ThreadPool W Unit ℕ) : ThreadPool.Event W Unit ℕ → WebServer W
  | .pop w => { s.goto w .read with pool := pool }
  | _ => { s with pool := pool }

inductive Step : WebServer W → Event W → WebServer W → Prop
  /-- One-shot: what is reported is not armed any more. -/
  | epollWait {s : WebServer W} {batch : List Ready} :
      s.batch = [] → s.pool.appender () = .idle → (batch.filterMap Ready.fd?).Nodup →
      (∀ fd ∈ batch.filterMap Ready.fd?, fd ∈ s.armed) →
        Step s (.epollWait batch)
          { s.next batch with armed := s.armed \ (batch.filterMap Ready.fd?).toFinset }
  | acceptFails {s : WebServer W} {rest : List Ready} :
      s.pool.appender () = .idle → s.batch = .listen :: rest → Step s .acceptFails (s.next rest)
  | accept {s : WebServer W} {rest : List Ready} {fd : ℕ} :
      s.pool.appender () = .idle → s.batch = .listen :: rest → fd ∉ s.fds →
        Step s (.accept fd) ((s.next rest).accept fd)
  | read {s : WebServer W} {rest : List Ready} {fd : ℕ} {ev : Events} {drained : Bool} :
      s.pool.appender () = .idle → s.batch = .conn fd ev :: rest → ev.epollIn = true →
        Step s (.read drained) ((s.next rest).read fd drained)
  | write {s : WebServer W} {rest : List Ready} {fd : ℕ} {ev : Events} {result : Write} :
      s.pool.appender () = .idle → s.batch = .conn fd ev :: rest → ev.epollIn = false →
      ev.epollOut = true → Step s (.write result) ((s.next rest).write fd result)
  /-- `epoll` reports no connection without an event, so this is what is left. -/
  | hangUp {s : WebServer W} {rest : List Ready} {fd : ℕ} {ev : Events} :
      s.pool.appender () = .idle → s.batch = .conn fd ev :: rest → ev.epollIn = false →
      ev.epollOut = false → ev.hangUp = true → Step s .hangUp ((s.next rest).closeConn fd)
  | post {s : WebServer W} :
      s.pool.appender () = .post → Step s .post { s with pool := s.pool.post () }
  | pool {s : WebServer W} {e : ThreadPool.Event W Unit ℕ} {pool : ThreadPool W Unit ℕ} :
      Fetches e → ThreadPool.Step s.pool e pool → Step s (.pool e) (s.fetch pool e)
  | answer {s : WebServer W} {w : W} {k : ℕ} {answer : Answer} :
      s.pool.worker w = .process k → s.place w = .read →
        Step s (.answer w answer) (s.answer w k answer)
  | unset {s : WebServer W} {w : W} {k : ℕ} :
      s.pool.worker w = .process k → s.place w = .close →
        Step s (.unset w) ((s.unset k).goto w .modFd)
  | modFd {s : WebServer W} {w : W} {k : ℕ} :
      s.pool.worker w = .process k → s.place w = .modFd →
        Step s (.modFd w) ((s.modFd k).done w)

/-! ### The owners of a connection -/

/-- The worker is running `process` of the connection `k`. -/
abbrev Processing (k : ℕ) (place : ThreadPool.WorkerAt ℕ) : Prop := place = .process k

section Owners

variable [Fintype W]

/-- Everything that holds the connection `fd`: the arming, the entries of the batch, the entries of the
queue, and the workers. -/
def owners (s : WebServer W) (fd : ℕ) : ℕ :=
  (if fd ∈ s.armed then 1 else 0) + (s.batch.filterMap Ready.fd?).count fd +
    s.pool.workqueue.count (some fd) + countAt (Processing fd) s.pool.worker

/-- Every open connection has one owner, and no two threads work on one connection. -/
structure Owned (s : WebServer W) : Prop where
  one : ∀ fd ∈ s.fds, s.owners fd = 1
  exclusive : ∀ k, (s.batch.filterMap Ready.fd?).count k + countAt (Processing k) s.pool.worker ≤ 1

end Owners

/-- A request is appended to a queue that takes it, and no descriptor is accepted under whose number a
worker is still in `process` of a connection that it has closed. -/
def Admissible (s : WebServer W) : Event W → Prop
  | .read drained => drained = true → s.pool.workqueue.length ≤ s.pool.maxRequest
  | .accept fd => s.mUserCount < maxFd → ∀ w, s.pool.worker w ≠ .process fd
  | _ => True

end WebServer

end LinuxServer
