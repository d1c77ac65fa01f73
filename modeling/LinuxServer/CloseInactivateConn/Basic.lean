import LinuxServer.Core.Trace
import LinuxServer.SortTimerLst.Runs

/-!
# The server that closes inactive connections

The event loop of `close_inactivate_conn.cpp`, on the timer list of `lst_timer.h`. A step is what is
done with one event of a batch of `epoll_wait`, or the end of a batch; the open descriptors and the
clock belong to the system. A function is `none` where the program would follow a dangling pointer,
leave the array `users`, or close a descriptor that is not open.
-/

namespace LinuxServer

open Core

namespace CloseInactivateConn

/-- `TIMESLOT` -/
def timeslot : ℤ := 5

/-- `FD_LIMIT` -/
def fdLimit : ℕ := 65535

/-- `client_data`. A pointer to one of `users` is its index. -/
structure ClientData where
  sockfd : ℕ
  timer : Link

/-- What a timer calls. -/
inductive Callback
  | cbFunc (userData : ℕ)
  deriving DecidableEq

def Callback.userData : Callback → ℕ
  | .cbFunc userData => userData

@[simp] lemma Callback.cbFunc_userData (b : Callback) : Callback.cbFunc b.userData = b := by
  cases b
  rfl

/-- The signals that are handled. -/
inductive Signal
  | sigalrm
  | sigterm
  deriving DecidableEq

/-- What `recv` returns on a client's descriptor, and the time at which `time` is called after it. -/
inductive Received
  | data (cur : ℤ)
  | eof
  | eagain
  | error

/-- The descriptors that the server opens at its start. -/
structure Fixed where
  listenfd : ℕ
  pipefd₀ : ℕ
  all : Finset ℕ
  listenfd_mem : listenfd ∈ all
  pipefd₀_mem : pipefd₀ ∈ all

/-- The variables of `main`, the open descriptors, the events of the batch that are not yet handled
(with whether they say `EPOLLIN`), and the last time read. -/
structure Server where
  users : ℕ → ClientData
  timerLst : SortTimerLst ℕ Callback
  timeout : Bool
  stopServer : Bool
  fds : Finset ℕ
  /-- `none` in `epoll_wait`. -/
  batch : Option (List (ℕ × Bool))
  now : ℤ

namespace Server

/-- Before the event loop. The elements of `users` are not initialised. -/
def init (c : Fixed) (users : ℕ → ClientData) (now : ℤ) : Server where
  users := users
  timerLst := SortTimerLst.init
  timeout := false
  stopServer := false
  fds := c.all
  batch := none
  now := now

/-- `users[fd]` -/
def user (s : Server) (fd : ℕ) : Option ClientData :=
  if fd < fdLimit then some (s.users fd) else none

/-- Assignment to `users[fd]`. -/
def setUser (s : Server) (fd : ℕ) (f : ClientData → ClientData) : Option Server :=
  if fd < fdLimit then
    some { s with users := Function.update s.users fd (f (s.users fd)) }
  else
    none

/-- A new user connection: `accept` returns `connfd`, and then `time` returns `cur`. -/
def accept (s : Server) (connfd : ℕ) (cur : ℤ) : Option Server := do
  let s := { s with fds := insert connfd s.fds, now := cur }
  let s ← s.setUser connfd fun u => { u with sockfd := connfd }
  let (timerLst, timer) := s.timerLst.newTimer (cur + 3 * timeslot) .cbFunc connfd
  let s ← s.setUser connfd fun u => { u with timer := some timer }
  let timerLst ← timerLst.addTimer (some timer)
  some { s with timerLst := timerLst }

/-- The signals that were received through the pipe. -/
def signals (s : Server) (sigs : List Signal) : Server :=
  { s with
    timeout := s.timeout || decide (.sigalrm ∈ sigs)
    stopServer := s.stopServer || decide (.sigterm ∈ sigs) }

/-- `cb_func(&users[userData])` -/
def cbFunc (s : Server) (userData : ℕ) : Option Server := do
  let u ← s.user userData
  if u.sockfd ∈ s.fds then some { s with fds := s.fds.erase u.sockfd } else none

/-- The end of a connection, by its client or on an error. -/
def closeConn (s : Server) (sockfd : ℕ) (timer : Link) : Option Server := do
  let s ← s.cbFunc sockfd
  if timer = none then
    some s
  else do
    let timerLst ← s.timerLst.delTimer timer
    some { s with timerLst := timerLst }

/-- What is done with an `EPOLLIN` event of a client's descriptor. -/
def read (s : Server) (sockfd : ℕ) (r : Received) : Option Server := do
  let u ← s.user sockfd
  match r with
  | .error => s.closeConn sockfd u.timer
  | .eagain => some s
  | .eof => s.closeConn sockfd u.timer
  | .data cur =>
    if u.timer = none then
      some s
    else do
      let timerLst ← s.timerLst.setExpire u.timer (cur + 3 * timeslot)
      let timerLst ← timerLst.adjustTimer u.timer
      some { s with timerLst := timerLst, now := cur }

/-- The callbacks of a `tick`. -/
def callbacks (s : Server) : List Callback → Option Server
  | [] => some s
  | .cbFunc userData :: calls => do (← s.cbFunc userData).callbacks calls

/-- `time_handler()`. The callbacks do not touch the list, so they may as well be called behind
`tick`. -/
def timeHandler (s : Server) (cur : ℤ) : Option Server := do
  let (timerLst, calls) ← s.timerLst.tick cur
  { s with timerLst := timerLst, now := cur }.callbacks (calls.map Prod.snd)

/-- The connection of a client is open. -/
def Client (c : Fixed) (s : Server) (fd : ℕ) : Prop := fd ∈ s.fds ∧ fd ∉ c.all

end Server

inductive Event
  | epollWait (batch : List (ℕ × Bool))
  | accept (connfd : ℕ) (cur : ℤ)
  | signals (sigs : List Signal)
  | read (sockfd : ℕ) (r : Received)
  | ignore
  | sweep (cur : ℤ)
  | again

/-- A time that is read is not before the last one. -/
def Received.NotBefore (now : ℤ) : Received → Prop
  | .data cur => now ≤ cur
  | _ => True

open Server in
/-- The steps of the event loop. A batch names a descriptor once, and only descriptors that are
registered; `accept` returns a descriptor below `FD_LIMIT` that is not open. -/
inductive Step (c : Fixed) : Server → Event → Server → Prop
  | epollWait {s : Server} {batch : List (ℕ × Bool)} : s.batch = none → s.stopServer = false →
      (batch.map Prod.fst).Nodup →
      (∀ fd ∈ batch.map Prod.fst, fd = c.listenfd ∨ fd = c.pipefd₀ ∨ s.Client c fd) →
      Step c s (.epollWait batch) { s with batch := some batch }
  | accept {s s' : Server} {epollin : Bool} {rest : List (ℕ × Bool)} {connfd : ℕ} {cur : ℤ} :
      s.batch = some ((c.listenfd, epollin) :: rest) → connfd < fdLimit → connfd ∉ s.fds →
      s.now ≤ cur → { s with batch := some rest }.accept connfd cur = some s' →
      Step c s (.accept connfd cur) s'
  | signals {s : Server} {rest : List (ℕ × Bool)} {sigs : List Signal} :
      s.batch = some ((c.pipefd₀, true) :: rest) →
      Step c s (.signals sigs) ({ s with batch := some rest }.signals sigs)
  | read {s s' : Server} {sockfd : ℕ} {rest : List (ℕ × Bool)} {r : Received} :
      s.batch = some ((sockfd, true) :: rest) → sockfd ≠ c.listenfd → sockfd ≠ c.pipefd₀ →
      r.NotBefore s.now → { s with batch := some rest }.read sockfd r = some s' →
      Step c s (.read sockfd r) s'
  | ignore {s : Server} {sockfd : ℕ} {rest : List (ℕ × Bool)} :
      s.batch = some ((sockfd, false) :: rest) → sockfd ≠ c.listenfd →
      Step c s .ignore { s with batch := some rest }
  | sweep {s s' : Server} {cur : ℤ} : s.batch = some [] → s.timeout = true → s.now ≤ cur →
      { s with batch := none, timeout := false }.timeHandler cur = some s' →
      Step c s (.sweep cur) s'
  | again {s : Server} : s.batch = some [] → s.timeout = false →
      Step c s .again { s with batch := none }

/-- The time of the accept of a connection, or of a read of its data. -/
def Event.active (fd : ℕ) : Event → Option ℤ
  | .accept connfd cur => if connfd = fd then some cur else none
  | .read sockfd (.data cur) => if sockfd = fd then some cur else none
  | _ => none

/-- The time at which `fd` was last accepted or read from. -/
def lastActive (es : List Event) (fd : ℕ) : Option ℤ := es.reverse.findSome? (Event.active fd)

end CloseInactivateConn

end LinuxServer
