import LinuxServer.Core.EdgeTriggered
import LinuxServer.Core.Trace

/-!
# The process pool

How a connection goes from the listening socket to a worker in `processpool.h`: an event on
`m_listenfd` makes the parent send `new_conn` through the pipe of the next worker, and the
event on its pipe makes the worker read one `new_conn` and accept one connection. Parent and
workers take their steps in any order; a wake-up and what is done on it are steps of their own.

The signal pipe and the requests of accepted connections do not touch these descriptors.
-/

namespace LinuxServer

open Core

/-- Where a worker is in `run_child`. -/
inductive WorkerAt
  | epollWait
  | recv
  | accept
  deriving DecidableEq

/-- `processpool` with `n` workers, and the descriptors between the processes. Connections are
numbered as they arrive. -/
structure ProcessPool (n : ℕ) where
  mPid : Fin n → ℤ
  mStop : Bool
  subProcessCounter : Fin n
  listen : Descriptor ℕ
  arrived : ℕ
  /-- The parent is at its event on `m_listenfd`, not in `epoll_wait`. -/
  parentAt : Bool
  pipe : Fin n → Descriptor ℤ
  worker : Fin n → WorkerAt
  accepted : List (ℕ × Fin n)

namespace ProcessPool

variable {n : ℕ} [NeZero n]

/-- After the constructor, in every process. -/
def init (mPid : Fin n → ℤ) : ProcessPool n where
  mPid := mPid
  mStop := false
  subProcessCounter := 0
  listen := .empty
  arrived := 0
  parentAt := false
  pipe _ := .empty
  worker _ := .epollWait
  accepted := []

/-- The round-robin loop of `run_parent`, from `i` on. -/
def roundRobinLoop (s : ProcessPool n) : ℕ → Fin n → Option (Fin n)
  | 0, _ => none
  | fuel + 1, i =>
    if s.mPid i = -1 then
      some i
    else if i + 1 ≠ s.subProcessCounter then
      s.roundRobinLoop fuel (i + 1)
    else
      some (i + 1)

/-- Where the loop ends. -/
def roundRobin (s : ProcessPool n) : Option (Fin n) := s.roundRobinLoop n s.subProcessCounter

/-- What the parent sends. -/
def newConn : ℤ := 1

/-- The parent sends `new_conn` to the worker `i`; the next search begins behind it. -/
def send (s : ProcessPool n) (i : Fin n) : ProcessPool n :=
  { s with
    subProcessCounter := i + 1
    pipe := Function.update s.pipe i ((s.pipe i).arrive newConn)
    parentAt := false }

/-- What the parent does on an event of `m_listenfd`. -/
def runParent (s : ProcessPool n) : Option (ProcessPool n) := do
  let i ← s.roundRobin
  if s.mPid i = -1 then
    some { s with mStop := true, parentAt := false }
  else
    some (s.send i)

/-- An event of its pipe wakes the worker `i`. -/
def wake (s : ProcessPool n) (i : Fin n) : ProcessPool n :=
  { s with
    pipe := Function.update s.pipe i (s.pipe i).wake
    worker := Function.update s.worker i .recv }

/-- The `recv` of a worker on an event of its pipe. It goes on to `accept` with a message and also
on `EAGAIN`, when there is none. -/
def recv (s : ProcessPool n) (i : Fin n) : ProcessPool n :=
  { s with
    pipe := Function.update s.pipe i (s.pipe i).read
    worker := Function.update s.worker i .accept }

/-- The `accept` of a worker; it fails when no connection is waiting. -/
def accept (s : ProcessPool n) (i : Fin n) : ProcessPool n :=
  { s with
    listen := s.listen.read
    worker := Function.update s.worker i .epollWait
    accepted := s.accepted ++ (s.listen.items.head?.map (·, i)).toList }

inductive Event (n : ℕ)
  | arrive
  | parentWake
  | parentSend
  | workerWake (i : Fin n)
  | workerRecv (i : Fin n)
  | workerAccept (i : Fin n)

/-- The step of an event; `none` when it cannot happen. -/
def next (s : ProcessPool n) : Event n → Option (ProcessPool n)
  | .arrive => some { s with listen := s.listen.arrive s.arrived, arrived := s.arrived + 1 }
  | .parentWake =>
    if s.mStop = false ∧ s.parentAt = false ∧ s.listen.event = true then
      some { s with listen := s.listen.wake, parentAt := true }
    else
      none
  | .parentSend => if s.parentAt = true then s.runParent else none
  | .workerWake i =>
    if s.worker i = .epollWait ∧ (s.pipe i).event = true then
      some (s.wake i)
    else
      none
  | .workerRecv i => if s.worker i = .recv then some (s.recv i) else none
  | .workerAccept i => if s.worker i = .accept then some (s.accept i) else none

def Step (s : ProcessPool n) (e : Event n) (s' : ProcessPool n) : Prop := s.next e = some s'

/-- An arrival finds no event pending on its descriptor. Connections arrive on `m_listenfd`,
messages on the pipe of the worker that the round robin comes to. -/
def NoMerge (s : ProcessPool n) : Event n → Prop
  | .arrive => s.listen.event = false
  | .parentSend => ∀ i, s.roundRobin = some i → (s.pipe i).event = false
  | _ => True

/-- No event is pending, and none is being handled. -/
structure Quiescent (s : ProcessPool n) : Prop where
  listen : s.listen.event = false
  parent : s.parentAt = false
  pipe : ∀ i, (s.pipe i).event = false
  worker : ∀ i, s.worker i = .epollWait

/-- Every connection that arrived was accepted by a worker, and every message was read. -/
structure Served (s : ProcessPool n) : Prop where
  accepted : ∀ c < s.arrived, ∃ i, (c, i) ∈ s.accepted
  pipe : ∀ i, (s.pipe i).items = []

end ProcessPool

end LinuxServer
