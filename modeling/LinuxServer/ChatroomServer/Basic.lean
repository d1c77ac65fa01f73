import LinuxServer.Core.Trace
import LinuxServer.Core.Segment

/-!
# The chat server

`chatroom_server.cpp`: a table of `pollfd` that is walked once after every return of `poll`. The walk
changes the table: a new connection is appended to it, and the last entry is moved into the place of a
connection that is closed. What the system calls answer is part of the event. A step that closes what
is not open is no step, and neither is one that would make `user_counter` negative.

That `poll` fails, which ends the server, is no step. The addresses of the clients are left out.
-/

namespace LinuxServer

open Core

namespace ChatroomServer

/-- `USER_LIMIT` -/
def userLimit : ℕ := 5

/-- `BUFFER_SIZE` -/
def bufferSize : ℕ := 64

/-- `POLLIN` -/
def pollIn : BitVec 16 := 0x001
/-- `POLLOUT` -/
def pollOut : BitVec 16 := 0x004
/-- `POLLERR` -/
def pollErr : BitVec 16 := 0x008
/-- `POLLHUP` -/
def pollHup : BitVec 16 := 0x010
/-- `POLLNVAL` -/
def pollNval : BitVec 16 := 0x020
/-- `POLLRDHUP` -/
def pollRdHup : BitVec 16 := 0x2000

/-- `pollfd` -/
structure PollFd where
  fd : ℤ
  events : BitVec 16
  revents : BitVec 16
  deriving DecidableEq

/-- `client_data` -/
structure ClientData where
  writeBuf : Option (List UInt8)
  buf : List UInt8

/-- What `recv` answers; `again` is `EAGAIN`. -/
inductive Recv
  | error (again : Bool)
  | bytes (data : List UInt8)

end ChatroomServer

open ChatroomServer in
/-- The server, and the descriptors of clients that are open. `i` is the loop variable, as long as the
table is walked. For the last walk there is kept what `poll` reported, which connections were
appended, and what the walk has looked at. -/
structure ChatroomServer where
  listenfd : ℤ
  fds : ℕ → PollFd
  userCounter : ℕ
  users : ℤ → ClientData
  i : Option ℕ
  opened : Finset ℤ
  present : List (ℤ × BitVec 16)
  appended : List ℤ
  examined : List (ℤ × BitVec 16)

namespace ChatroomServer

/-- Before the first call of `poll`. The entries from 2 on and `users` are not initialised. -/
def start (listenfd : ℤ) (fds : ℕ → PollFd) (users : ℤ → ClientData) : ChatroomServer where
  listenfd := listenfd
  fds j :=
    if j = 0 then ⟨listenfd, pollIn ||| pollErr, 0⟩
    else if j = 1 then { fds 1 with fd := -1, events := 0 }
    else fds j
  userCounter := 0
  users := users
  i := none
  opened := ∅
  present := []
  appended := []
  examined := []

/-- What the walk looks at in the entry `j`. -/
def key (s : ChatroomServer) (j : ℕ) : ℤ × BitVec 16 := ((s.fds j).fd, (s.fds j).revents)

/-- The descriptors in the table of users. -/
def table (s : ChatroomServer) : List ℤ := segment (fun j => (s.fds j).fd) 1 s.userCounter

/-- `fds[i].revents & flag` -/
def Reports (s : ChatroomServer) (i : ℕ) (flag : BitVec 16) : Prop := (s.fds i).revents &&& flag ≠ 0

instance (s : ChatroomServer) (i : ℕ) (flag : BitVec 16) : Decidable (s.Reports i flag) :=
  inferInstanceAs (Decidable (_ ≠ _))

/-- The test of the loop, for `i` as its next value. -/
def next (s : ChatroomServer) (i : ℕ) : ChatroomServer :=
  { s with i := if i < s.userCounter + 1 then some i else none }

/-- `poll` has written `revents` to the entries `0, .., user_counter`, and the walk begins. -/
def poll (s : ChatroomServer) (revents : ℕ → BitVec 16) : ChatroomServer :=
  let fds j := if j < s.userCounter + 1 then { s.fds j with revents := revents j } else s.fds j
  { s with
    fds := fds
    i := some 0
    present := segment (fun j => ((fds j).fd, (fds j).revents)) 0 (s.userCounter + 1)
    appended := []
    examined := [] }

def close (s : ChatroomServer) (fd : ℤ) : Option ChatroomServer :=
  if fd ∈ s.opened then some { s with opened := s.opened.erase fd } else none

/-- A new user is written behind the last one. -/
def append (s : ChatroomServer) (connfd : ℤ) : ChatroomServer :=
  { s with
    userCounter := s.userCounter + 1
    fds := Function.update s.fds (s.userCounter + 1) ⟨connfd, pollIn ||| pollRdHup ||| pollErr, 0⟩
    appended := s.appended ++ [connfd] }

/-- The listening socket is ready, and `accept` returns `connfd`. -/
def accept (s : ChatroomServer) (i : ℕ) (connfd : ℤ) : Option ChatroomServer :=
  if connfd < 0 then
    some (s.next (i + 1))
  else
    let s := { s with opened := insert connfd s.opened }
    if userLimit ≤ s.userCounter then
      (s.close connfd).map fun s => s.next (i + 1)
    else
      some ((s.append connfd).next (i + 1))

/-- `users[fds[i].fd] = users[fds[user_counter].fd]` -/
def copyLast (s : ChatroomServer) (i : ℕ) : ChatroomServer :=
  { s with users := Function.update s.users (s.fds i).fd (s.users (s.fds s.userCounter).fd) }

/-- `fds[i] = fds[user_counter]`, `--i` and `--user_counter`: the walk comes to `i` again. -/
def moveLast (s : ChatroomServer) (i : ℕ) : Option ChatroomServer :=
  match s.userCounter with
  | 0 => none
  | n + 1 => some ({ s with fds := Function.update s.fds i (s.fds (n + 1)), userCounter := n }.next i)

def hangUp (s : ChatroomServer) (i : ℕ) : Option ChatroomServer :=
  ((s.copyLast i).close (s.fds i).fd).bind fun s => s.moveLast i

/-- `recv` fails, and not with `EAGAIN`. -/
def readFails (s : ChatroomServer) (i : ℕ) : Option ChatroomServer :=
  (s.close (s.fds i).fd).bind fun s => (s.copyLast i).moveLast i

/-- What is received stands in the buffer, which was cleared before. -/
def receive (s : ChatroomServer) (connfd : ℤ) (data : List UInt8) : ChatroomServer :=
  { s with
    users := Function.update s.users connfd
      { s.users connfd with buf := data.take (bufferSize - 1) } }

/-- The other sockets are to be written to. The source compares `events` with `connfd`, and sets the
bits of `~POLLIN`. -/
def notify (s : ChatroomServer) (connfd : ℤ) : ChatroomServer :=
  { s with
    fds := fun j =>
      if (1 ≤ j ∧ j ≤ s.userCounter) ∧ (s.fds j).events.toInt ≠ connfd then
        { s.fds j with events := (s.fds j).events ||| ~~~pollIn ||| pollOut }
      else
        s.fds j }

/-- A user can be read from. -/
def read (s : ChatroomServer) (i : ℕ) : Recv → Option ChatroomServer
  | .error again =>
    let s := s.receive (s.fds i).fd []
    if again then some (s.next (i + 1)) else s.readFails i
  | .bytes data =>
    let connfd := (s.fds i).fd
    let s := s.receive connfd data
    some ((if data = [] then s else s.notify connfd).next (i + 1))

/-- A user can be written to. -/
def write (s : ChatroomServer) (i : ℕ) : ChatroomServer :=
  let connfd := (s.fds i).fd
  match (s.users connfd).writeBuf with
  | none => s.next (i + 1)
  | some _ =>
    { s with
      users := Function.update s.users connfd { s.users connfd with writeBuf := none }
      fds := Function.update s.fds i
        { s.fds i with events := (s.fds i).events ||| ~~~pollOut ||| pollIn } }.next (i + 1)

/-- The body of the walk at the entry `i`. -/
def examine (s : ChatroomServer) (i : ℕ) (connfd : ℤ) (received : Recv) : Option ChatroomServer :=
  let s := { s with examined := s.examined ++ [s.key i] }
  if (s.fds i).fd = s.listenfd ∧ s.Reports i pollIn then s.accept i connfd
  else if s.Reports i pollErr then some (s.next (i + 1))
  else if s.Reports i pollRdHup then s.hangUp i
  else if s.Reports i pollIn then s.read i received
  else if s.Reports i pollOut then some (s.write i)
  else some (s.next (i + 1))

/-- `accept` fails, or gives out a descriptor that is not open. -/
def Fresh (s : ChatroomServer) (connfd : ℤ) : Prop :=
  0 ≤ connfd → connfd ≠ s.listenfd ∧ connfd ∉ s.opened

instance (s : ChatroomServer) (connfd : ℤ) : Decidable (s.Fresh connfd) :=
  inferInstanceAs (Decidable (_ → _))

/-- What `poll` may report of the listening socket. -/
def Reportable (s : ChatroomServer) (revents : ℕ → BitVec 16) : Prop :=
  revents 0 &&& ~~~((s.fds 0).events ||| pollErr ||| pollHup ||| pollNval) = 0

instance (s : ChatroomServer) (revents : ℕ → BitVec 16) : Decidable (s.Reportable revents) :=
  inferInstanceAs (Decidable (_ = _))

inductive Event
  | poll (revents : ℕ → BitVec 16)
  /-- `accept` and `recv` answer so, when they are called. -/
  | examine (connfd : ℤ) (received : Recv)

inductive Step : ChatroomServer → Event → ChatroomServer → Prop
  | poll {s : ChatroomServer} {revents : ℕ → BitVec 16} :
      s.i = none → s.Reportable revents → Step s (.poll revents) (s.poll revents)
  | examine {s s' : ChatroomServer} {i : ℕ} {connfd : ℤ} {received : Recv} :
      s.i = some i → s.Fresh connfd → s.examine i connfd received = some s' →
        Step s (.examine connfd received) s'

end ChatroomServer

end LinuxServer
