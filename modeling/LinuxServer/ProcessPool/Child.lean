import LinuxServer.CgiConn.Basic

/-!
# A worker of the process pool

The loop of `run_child`, with `cgi_conn` for the connections. What `epoll_wait` returns, which signals are
delivered and when the CGI programs end is up to the environment; a signal handler that
runs while the worker is in `epoll_wait` makes it fail with `EINTR`.
-/

namespace LinuxServer.ProcessPool

open Core

/-- The signals that `setup_sig_pipe` has a handler for. -/
inductive Sig
  | sigchld
  | sigterm
  | sigint
  deriving DecidableEq

inductive Errno
  | eintr
  | eagain
  | other (code : ℕ)
  deriving DecidableEq

/-- An entry of `events`. -/
inductive Ready
  /-- `pipefd` with `EPOLLIN` -/
  | pipe
  /-- `sig_pipefd[0]` with `EPOLLIN` -/
  | sigPipe
  /-- Another descriptor with `EPOLLIN` -/
  | conn (sockfd : ℤ)
  /-- Without `EPOLLIN` -/
  | other (sockfd : ℤ)
  deriving DecidableEq

/-- A worker: the events that are still to be handled, when there are none it is at the head of its loop or
in `epoll_wait`; whether it has left the loop; the registered connections; the CGI programs that
run, and those that have exited; the signals that are pending, whether one interrupted
`epoll_wait`, the bytes in the signal pipe and those that were read from it. -/
structure Child where
  epollFd : ℤ
  events : List Ready
  left : Bool
  mStop : Bool
  users : ℤ → CgiConn
  conns : Finset ℤ
  running : List ℤ
  exited : List ℤ
  pending : Finset Sig
  interrupted : Bool
  sigPipe : List Sig
  received : List Sig

namespace Child

/-- Before the loop. -/
def init (epollFd : ℤ) (users : ℤ → CgiConn) : Child where
  epollFd := epollFd
  events := []
  left := false
  mStop := false
  users := users
  conns := ∅
  running := []
  exited := []
  pending := ∅
  interrupted := false
  sigPipe := []
  received := []

/-- Behind the loop: the worker ends, which closes its connections. -/
def leave (s : Child) : Child := { s with left := true, conns := ∅ }

/-- `epoll_wait` has failed. Without `break` the `for` loop is over at once. -/
def epollFail (s : Child) (errno : Errno) : Child :=
  if errno ≠ .eagain then s.leave else { s with interrupted := false }

/-- The `accept` of a worker; `none` when it failed. -/
def accept (s : Child) : Option ℤ → Child
  | none => s
  | some connfd =>
    { s with
      conns := insert connfd s.conns
      users := Function.update s.users connfd (.init s.epollFd connfd) }

/-- The case of `pipefd`: what `recv` returned, and `accept`. -/
def newConn (s : Child) (ret : CgiConn.Recv) (connfd : Option ℤ) : Child :=
  match ret with
  | .error => s
  | .zero => s
  | .eagain => s.accept connfd
  | .data _ => s.accept connfd

/-- `waitpid(-1, &stat, WNOHANG)` -/
def waitpid (s : Child) : ℤ × Child :=
  match s.exited with
  | pid :: rest => (pid, { s with exited := rest })
  | [] => (if s.running = [] then -1 else 0, s)

/-- `while ((pid == waitpid(..)) > 0)`, for the value that `pid` has. -/
def reapLoop (s : Child) (pid : ℤ) : ℕ → Option Child
  | 0 => none
  | fuel + 1 => if pid = s.waitpid.1 then s.waitpid.2.reapLoop pid fuel else some s.waitpid.2

/-- The `switch` over a byte of the signal pipe; `none` when the loop of `SIGCHLD` does not end. -/
def signal (s : Child) : Sig × ℤ → Option Child
  | (.sigchld, pid) => s.reapLoop pid (s.exited.length + 1)
  | (.sigterm, _) => some { s with mStop := true }
  | (.sigint, _) => some { s with mStop := true }

/-- The loop over the bytes that were read. -/
def signals (s : Child) (bytes : List (Sig × ℤ)) : Option Child :=
  bytes.foldlM signal { s with received := s.received ++ bytes.map Prod.fst }

/-- A child was forked. -/
def forks (effects : List CgiConn.Effect) : Bool :=
  effects.any fun
    | .execl _ _ => true
    | _ => false

/-- What `process` has done to the descriptors and the processes. `pid` is what `fork` returned. -/
def processed (s : Child) (sockfd pid : ℤ) (effects : List CgiConn.Effect) (conn : CgiConn) : Child :=
  { s with
    users := Function.update s.users sockfd conn
    conns := s.conns.filter fun fd => .removefd s.epollFd fd ∉ effects
    running := if forks effects then pid :: s.running else s.running }

/-- `sig_handler`; `sent` is whether there is room in the pipe. -/
def sigHandler (s : Child) (sig : Sig) (sent : Bool) : Child :=
  { s with
    pending := s.pending.erase sig
    sigPipe := if sent then s.sigPipe ++ [sig] else s.sigPipe
    interrupted := if s.events = [] then true else s.interrupted }

inductive Event
  | epollWait (events : List Ready)
  | epollFail (errno : Errno)
  | stop
  | newConn (ret : CgiConn.Recv) (connfd : Option ℤ)
  /-- Bytes of the signal pipe, each with the value that `pid` has at it. -/
  | signals (bytes : List (Sig × ℤ))
  | process (sockfd : ℤ) (sys : CgiConn.System) (rets : List CgiConn.Recv) (pid : ℤ)
  /-- An event without `EPOLLIN`, or one of the signal pipe with nothing to read. -/
  | skip
  /-- A CGI program ends. -/
  | exit (pid : ℤ)
  | raise (sig : Sig)
  | sigHandler (sig : Sig) (sent : Bool)
  /-- The worker is stopped and continued. -/
  | cont

/-- What can happen before the worker has left its loop. -/
inductive Act : Child → Event → Child → Prop
  /-- Only registered descriptors are reported, and each once. -/
  | epollWait {s : Child} {events : List Ready} :
      s.events = [] → s.mStop = false → events.Nodup → (∀ fd, .conn fd ∈ events → fd ∈ s.conns) →
        Act s (.epollWait events) { s with events := events, interrupted := false }
  | epollFail {s : Child} {errno : Errno} :
      s.events = [] → s.mStop = false → (errno = .eintr → s.interrupted = true) →
        Act s (.epollFail errno) (s.epollFail errno)
  | stop {s : Child} : s.events = [] → s.mStop = true → Act s .stop s.leave
  | newConn {s : Child} {rest : List Ready} {ret : CgiConn.Recv} {connfd : Option ℤ} :
      s.events = .pipe :: rest → (∀ fd, connfd = some fd → fd ∉ s.conns) →
        Act s (.newConn ret connfd) ({ s with events := rest }.newConn ret connfd)
  | signals {s s' : Child} {rest : List Ready} {bytes : List (Sig × ℤ)} {later : List Sig} :
      s.events = .sigPipe :: rest → s.sigPipe = bytes.map Prod.fst ++ later → bytes ≠ [] →
        bytes.length ≤ 1024 → { s with events := rest, sigPipe := later }.signals bytes = some s' →
        Act s (.signals bytes) s'
  | process {s : Child} {rest : List Ready} {sockfd pid : ℤ} {sys : CgiConn.System}
      {rets : List CgiConn.Recv} {effects : List CgiConn.Effect} {conn : CgiConn} :
      s.events = .conn sockfd :: rest →
        (s.users sockfd).process sys rets = some (effects, conn) →
        Act s (.process sockfd sys rets pid)
          ({ s with events := rest }.processed sockfd pid effects conn)
  | skip {s : Child} {rest : List Ready} {ready : Ready} :
      s.events = ready :: rest → (ready = .sigPipe ∨ ∃ fd, ready = .other fd) →
        Act s .skip { s with events := rest }
  | exit {s : Child} {pid : ℤ} {before after : List ℤ} :
      pid ∈ s.running → s.exited = before ++ after →
        Act s (.exit pid) { s with
          running := s.running.erase pid
          exited := before ++ pid :: after
          pending := insert .sigchld s.pending }
  | raise {s : Child} {sig : Sig} : Act s (.raise sig) { s with pending := insert sig s.pending }
  | sigHandler {s : Child} {sig : Sig} {sent : Bool} :
      sig ∈ s.pending → Act s (.sigHandler sig sent) (s.sigHandler sig sent)
  | cont {s : Child} :
      Act s .cont { s with interrupted := if s.events = [] then true else s.interrupted }

def Step (s : Child) (e : Event) (s' : Child) : Prop := s.left = false ∧ Act s e s'

/-- A byte that asks the worker to stop has been read. -/
def Stopped (s : Child) : Prop := .sigterm ∈ s.received ∨ .sigint ∈ s.received

/-- The worker leaves its loop when it was asked to, or when `epoll_wait` failed by itself. -/
def MayLeave (s : Child) (e : Event) : Prop :=
  s.Stopped ∨ ∃ errno, errno ≠ .eintr ∧ e = .epollFail errno

/-- What a step is to do: it does not end the worker without a reason, and a connection is dropped by its
own `process` or because the worker ends. -/
structure Keeps (s : Child) (e : Event) (s' : Child) : Prop where
  left : s'.left = true → s.MayLeave e
  conns : ∀ fd ∈ s.conns, fd ∉ s'.conns →
    (∃ sys rets pid, e = .process fd sys rets pid) ∨ s.MayLeave e

/-- `epoll_wait` is not interrupted. -/
def Uninterrupted (_ : Child) (e : Event) : Prop := e ≠ .epollFail .eintr

end Child

end LinuxServer.ProcessPool
