import LinuxServer.Core.CString
import LinuxServer.Core.Trace
import LinuxServer.Core.Watched

/-!
# Reading with one-shot events

`test_epolloneshot.cpp`: the main loop starts a thread for every event of a connection, and the thread
reads until there is nothing left. A connection is watched with `EPOLLONESHOT`, so that it is not
reported again until its thread is done with it. The main loop and the threads take their steps in
any order; what the system calls answer is part of the event.

The argument of a thread is a pointer to `fds_for_new_worker`, a local of the block that creates the
thread. The main loop leaves the block as soon as `pthread_create` returns, and the place is dead then:
a thread that has not read it by then finds any `sockfd` there. Its `epollfd` is always the same and
is left out, also where it is read too late. So are the end of the server when `epoll_wait` fails, and
that `worker` ends without a `return`, whose value nobody asks for.
-/

namespace LinuxServer

open Core

namespace TestEpolloneshot

/-- `BUFSIZE` -/
def bufSize : ℕ := 10

/-- `MAX_EVENT_NUMBER` -/
def maxEventNumber : ℕ := 1024

/-- A connection: which client it is from, in the order of `accept`, and its stream. -/
structure Conn where
  client : ℕ
  stream : Watched UInt8

/-- Where a thread is in `worker`: not created; before its argument is read; at `recv`; at the `printf`
of the `ret` bytes it has got from `client`; at `close`; at `reset_oneshot`; at its end. -/
inductive WorkerAt
  | none
  | start
  | recv (sockfd : ℕ) (buf : Bytes)
  | print (sockfd : ℕ) (buf : Bytes) (ret : ℕ) (client : ℕ)
  | close (sockfd : ℕ)
  | reset (sockfd : ℕ)
  | done
  deriving DecidableEq

/-- An entry of `events`: `data.fd`, and whether `EPOLLIN` is set. -/
structure Ready where
  fd : ℕ
  epollIn : Bool
  deriving DecidableEq

/-- `recv(sockfd, buf, ..)` writes to the front of the buffer. -/
def overwrite (data buf : Bytes) : Bytes := data ++ buf.drop data.length

lemma take_overwrite {data : Bytes} {n : ℕ} (h : data.length = n) (buf : Bytes) :
    (overwrite data buf).take n = data := by
  rw [← h, overwrite, List.take_left]

end TestEpolloneshot

open TestEpolloneshot in
/-- The server. `batch` are the entries of `events` that the loop has still to handle; `arg` is what
stands in `fds_for_new_worker.sockfd` while the main loop is in its block. Of every client there is
kept what it has sent, whether it has closed its end, and of every `recv` behind which there was a
`printf` the bytes that it got and the text that was printed; of every thread, what its calls of
`recv` got. -/
structure TestEpolloneshot (W : Type*) where
  listenfd : ℕ
  conn : ℕ → Option Conn
  batch : List Ready
  arg : Option ℕ
  worker : W → TestEpolloneshot.WorkerAt
  clients : ℕ
  sent : ℕ → Bytes
  ended : ℕ → Bool
  printed : ℕ → List (Bytes × Bytes)
  got : W → List Bytes

namespace TestEpolloneshot

variable {W : Type*}

/-- At the first call of `epoll_wait`. -/
def init (listenfd : ℕ) : TestEpolloneshot W where
  listenfd := listenfd
  conn _ := none
  batch := []
  arg := none
  worker _ := .none
  clients := 0
  sent _ := []
  ended _ := false
  printed _ := []
  got _ := []

/-! ### The clients -/

def arrive (s : TestEpolloneshot W) (fd : ℕ) (c : Conn) (data : Bytes) : TestEpolloneshot W :=
  { s with
    conn := Function.update s.conn fd (some { c with stream := c.stream.arrive data })
    sent := Function.update s.sent c.client (s.sent c.client ++ data) }

def finish (s : TestEpolloneshot W) (fd : ℕ) (c : Conn) : TestEpolloneshot W :=
  { s with
    conn := Function.update s.conn fd (some { c with stream := c.stream.finish })
    ended := Function.update s.ended c.client true }

/-! ### The main loop -/

/-- `epoll_wait` may report the entry. -/
def Reportable (s : TestEpolloneshot W) (e : Ready) : Prop :=
  e.fd = s.listenfd ∨
    ∃ c, s.conn e.fd = some c ∧ c.stream.armed = true ∧ e.epollIn = c.stream.readable ∧
      (e.epollIn = true → c.stream.ready = true)

/-- What `epoll_wait` does to the connections that it reports. -/
def reportAll (conn : ℕ → Option Conn) (events : List Ready) (fd : ℕ) : Option Conn :=
  if fd ∈ events.map (·.fd) then
    (conn fd).map fun c => { c with stream := c.stream.reportOnce }
  else
    conn fd

/-- `epoll_wait` returns with `events`. -/
def wait (s : TestEpolloneshot W) (events : List Ready) : TestEpolloneshot W :=
  { s with conn := reportAll s.conn events, batch := events }

/-- `accept` and `addfd(epollfd, connfd, true)`, for a client that has sent `data` by then and maybe
closed its end. -/
def accept (s : TestEpolloneshot W) (connfd : ℕ) (data : Bytes) (ended : Bool) : TestEpolloneshot W :=
  { s with
    conn := Function.update s.conn connfd (some ⟨s.clients, Watched.arm ⟨data, ended, false, false⟩⟩)
    batch := s.batch.tail
    clients := s.clients + 1
    sent := Function.update s.sent s.clients data
    ended := Function.update s.ended s.clients ended }

/-- The loop goes on to the next entry. -/
def next (s : TestEpolloneshot W) : TestEpolloneshot W := { s with batch := s.batch.tail }

/-- `fds_for_new_worker` is written. -/
def setArg (s : TestEpolloneshot W) (sockfd : ℕ) : TestEpolloneshot W :=
  { s.next with arg := some sockfd }

/-- The block of `fds_for_new_worker` is left. -/
def leave (s : TestEpolloneshot W) : TestEpolloneshot W := { s with arg := none }

/-! ### A thread -/

variable [DecidableEq W]

/-- `worker` goes on to `w`'s next place. -/
def goto (s : TestEpolloneshot W) (w : W) (place : WorkerAt) : TestEpolloneshot W :=
  { s with worker := Function.update s.worker w place }

/-- `pthread_create(.., worker, &fds_for_new_worker)` -/
def dispatch (s : TestEpolloneshot W) (w : W) (sockfd : ℕ) : TestEpolloneshot W :=
  (s.setArg sockfd).goto w .start

/-- `recv` returns `ret`, which is positive. -/
def recv (s : TestEpolloneshot W) (w : W) (sockfd : ℕ) (buf : Bytes) (c : Conn) (ret : ℕ) :
    TestEpolloneshot W :=
  let data := c.stream.unread.take ret
  { s.goto w (.print sockfd (overwrite data buf) ret c.client) with
    conn := Function.update s.conn sockfd (some { c with stream := c.stream.take ret })
    got := Function.update s.got w (s.got w ++ [data]) }

/-- `printf("get content: %s\n", buf)`, which prints up to the first NUL. -/
def print (s : TestEpolloneshot W) (w : W) (sockfd : ℕ) (buf : Bytes) (ret client : ℕ) :
    TestEpolloneshot W :=
  { s.goto w (.recv sockfd buf) with
    printed := Function.update s.printed client (s.printed client ++ [(buf.take ret, cut buf)]) }

/-- `reset_oneshot(epollfd, sockfd)`, which fails on a descriptor that is closed. -/
def reset (s : TestEpolloneshot W) (w : W) (sockfd : ℕ) : TestEpolloneshot W :=
  { s.goto w .done with
    conn := Function.update s.conn sockfd
      ((s.conn sockfd).map fun c => { c with stream := c.stream.arm }) }

/-- `close(sockfd)` -/
def close (s : TestEpolloneshot W) (w : W) (sockfd : ℕ) : TestEpolloneshot W :=
  { s.goto w .done with conn := Function.update s.conn sockfd none }

/-! ### Steps -/

inductive Event (W : Type*)
  | arrive (fd : ℕ) (data : Bytes)
  | finish (fd : ℕ)
  | wait (events : List Ready)
  | accept (connfd : ℕ) (data : Bytes) (ended : Bool)
  /-- `accept` returns -1, and `addfd` fails. -/
  | acceptFails
  | dispatch (w : W)
  /-- `pthread_create` creates no thread. -/
  | createFails
  | leave
  /-- `something else happend` -/
  | other
  /-- `worker` reads its argument, and finds `sockfd`. -/
  | start (w : W) (sockfd : ℕ)
  | recv (w : W) (ret : ℕ)
  | recvEnd (w : W)
  | recvAgain (w : W)
  /-- `recv` returns -1 with another error than `EAGAIN`. -/
  | recvFails (w : W)
  | print (w : W)
  | reset (w : W)
  | close (w : W)

inductive Step : TestEpolloneshot W → Event W → TestEpolloneshot W → Prop
  | arrive {s : TestEpolloneshot W} {fd : ℕ} {c : Conn} {data : Bytes} :
      s.conn fd = some c → c.stream.ended = false → Step s (.arrive fd data) (s.arrive fd c data)
  | finish {s : TestEpolloneshot W} {fd : ℕ} {c : Conn} :
      s.conn fd = some c → Step s (.finish fd) (s.finish fd c)
  | wait {s : TestEpolloneshot W} {events : List Ready} :
      s.arg = none → s.batch = [] → events ≠ [] → events.length ≤ maxEventNumber →
        (events.map (·.fd)).Nodup → (∀ e ∈ events, s.Reportable e) →
        Step s (.wait events) (s.wait events)
  | accept {s : TestEpolloneshot W} {e : Ready} {rest : List Ready} {connfd : ℕ} {data : Bytes}
      {ended : Bool} :
      s.arg = none → s.batch = e :: rest → e.fd = s.listenfd → s.conn connfd = none →
        connfd ≠ s.listenfd → Step s (.accept connfd data ended) (s.accept connfd data ended)
  | acceptFails {s : TestEpolloneshot W} {e : Ready} {rest : List Ready} :
      s.arg = none → s.batch = e :: rest → e.fd = s.listenfd → Step s .acceptFails s.next
  | dispatch {s : TestEpolloneshot W} {e : Ready} {rest : List Ready} {w : W} :
      s.arg = none → s.batch = e :: rest → e.fd ≠ s.listenfd → e.epollIn = true → s.worker w = .none →
        Step s (.dispatch w) (s.dispatch w e.fd)
  | createFails {s : TestEpolloneshot W} {e : Ready} {rest : List Ready} :
      s.arg = none → s.batch = e :: rest → e.fd ≠ s.listenfd → e.epollIn = true →
        Step s .createFails (s.setArg e.fd)
  | leave {s : TestEpolloneshot W} : s.arg ≠ none → Step s .leave s.leave
  | other {s : TestEpolloneshot W} {e : Ready} {rest : List Ready} :
      s.arg = none → s.batch = e :: rest → e.fd ≠ s.listenfd → e.epollIn = false → Step s .other s.next
  | start {s : TestEpolloneshot W} {w : W} {sockfd : ℕ} :
      s.worker w = .start → (∀ a ∈ s.arg, sockfd = a) →
        Step s (.start w sockfd) (s.goto w (.recv sockfd (List.replicate bufSize 0)))
  | recv {s : TestEpolloneshot W} {w : W} {sockfd ret : ℕ} {buf : Bytes} {c : Conn} :
      s.worker w = .recv sockfd buf → s.conn sockfd = some c → 0 < ret → ret ≤ bufSize - 1 →
        ret ≤ c.stream.unread.length → Step s (.recv w ret) (s.recv w sockfd buf c ret)
  | recvEnd {s : TestEpolloneshot W} {w : W} {sockfd : ℕ} {buf : Bytes} {c : Conn} :
      s.worker w = .recv sockfd buf → s.conn sockfd = some c → c.stream.unread = [] →
        c.stream.ended = true → Step s (.recvEnd w) (s.goto w (.close sockfd))
  | recvAgain {s : TestEpolloneshot W} {w : W} {sockfd : ℕ} {buf : Bytes} {c : Conn} :
      s.worker w = .recv sockfd buf → s.conn sockfd = some c → c.stream.unread = [] →
        c.stream.ended = false → Step s (.recvAgain w) (s.goto w (.reset sockfd))
  | recvFails {s : TestEpolloneshot W} {w : W} {sockfd : ℕ} {buf : Bytes} :
      s.worker w = .recv sockfd buf → Step s (.recvFails w) s
  | print {s : TestEpolloneshot W} {w : W} {sockfd ret client : ℕ} {buf : Bytes} :
      s.worker w = .print sockfd buf ret client → Step s (.print w) (s.print w sockfd buf ret client)
  | reset {s : TestEpolloneshot W} {w : W} {sockfd : ℕ} :
      s.worker w = .reset sockfd → Step s (.reset w) (s.reset w sockfd)
  | close {s : TestEpolloneshot W} {w : W} {sockfd : ℕ} :
      s.worker w = .close sockfd → Step s (.close w) (s.close w sockfd)

end TestEpolloneshot

end LinuxServer
