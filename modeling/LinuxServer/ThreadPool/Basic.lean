import LinuxServer.Core.Trace

/-!
# The thread pool

`threadpool.h`: threads call `append`, workers call `run`, in any order of their steps. What stands
between taking and releasing `m_queuelocker` is one step; waiting for `m_queuestat` and posting
to it are steps of their own. A request is a pointer, and may be null.

`m_stop` is set by the destructor only, which is no step here.
-/

namespace LinuxServer

open Core

namespace ThreadPool

/-- Where a worker is in `run`. -/
inductive WorkerAt (T : Type*)
  | wait
  | pop
  | process (request : T)
  deriving DecidableEq

/-- Where a thread is that calls `append`. -/
inductive AppenderAt
  | idle
  | post
  deriving DecidableEq

end ThreadPool

open ThreadPool in
/-- `threadpool<T>`, with its workers and the threads that append to it. What `append` took in and
what the workers took out is kept in order. -/
structure ThreadPool (W A T : Type*) where
  maxRequest : ℕ
  workqueue : List (Option T)
  queuestat : ℕ
  worker : W → ThreadPool.WorkerAt T
  appender : A → AppenderAt
  accepted : List (Option T)
  popped : List (Option T)

namespace ThreadPool

variable {W A T : Type*}

/-- The constructor: the workers go to `m_queuestat.wait()`. -/
def init (maxRequest : ℕ) : ThreadPool W A T where
  maxRequest := maxRequest
  workqueue := []
  queuestat := 0
  worker _ := .wait
  appender _ := .idle
  accepted := []
  popped := []

variable [DecidableEq W] [DecidableEq A]

/-- What `append` does while it holds the lock: whether the request is taken in, and the pool. When it
is not, `append` is at its end. -/
def append (s : ThreadPool W A T) (a : A) (request : Option T) : Bool × ThreadPool W A T :=
  if s.maxRequest < s.workqueue.length then
    (false, s)
  else
    (true, { s with
      workqueue := s.workqueue ++ [request]
      appender := Function.update s.appender a .post
      accepted := s.accepted ++ [request] })

/-- `m_queuestat.post()` at the end of `append`. -/
def post (s : ThreadPool W A T) (a : A) : ThreadPool W A T :=
  { s with
    queuestat := s.queuestat + 1
    appender := Function.update s.appender a .idle }

/-- `run` goes on to `w`'s next place. -/
def goto (s : ThreadPool W A T) (w : W) (place : WorkerAt T) : ThreadPool W A T :=
  { s with worker := Function.update s.worker w place }

/-- What `run` does while it holds the lock, and its test for a null request. -/
def pop (s : ThreadPool W A T) (w : W) : ThreadPool W A T :=
  match s.workqueue with
  | [] => s.goto w .wait
  | request :: rest =>
    { s with
      workqueue := rest
      worker := Function.update s.worker w (request.elim .wait .process)
      popped := s.popped ++ [request] }

inductive Event (W A T : Type*)
  | append (a : A) (request : Option T)
  | post (a : A)
  | wait (w : W)
  /-- `sem_wait` returns without a decrement, and `run` does not look at what it returns. -/
  | interrupt (w : W)
  | pop (w : W)
  /-- `request->process()` is done. -/
  | done (w : W)

inductive Step : ThreadPool W A T → Event W A T → ThreadPool W A T → Prop
  | append {s : ThreadPool W A T} {a : A} {request : Option T} :
      s.appender a = .idle → Step s (.append a request) (s.append a request).2
  | post {s : ThreadPool W A T} {a : A} :
      s.appender a = .post → Step s (.post a) (s.post a)
  | wait {s : ThreadPool W A T} {w : W} {n : ℕ} :
      s.worker w = .wait → s.queuestat = n + 1 →
        Step s (.wait w) { s.goto w .pop with queuestat := n }
  | interrupt {s : ThreadPool W A T} {w : W} :
      s.worker w = .wait → Step s (.interrupt w) (s.goto w .pop)
  | pop {s : ThreadPool W A T} {w : W} :
      s.worker w = .pop → Step s (.pop w) (s.pop w)
  | done {s : ThreadPool W A T} {w : W} {request : T} :
      s.worker w = .process request → Step s (.done w) (s.goto w .wait)

end ThreadPool

end LinuxServer
