import LinuxServer.ChatroomMultiprocess.Basic
import LinuxServer.Core.CString
import LinuxServer.Core.EdgeTriggered

/-!
# The messages of the multi-process chat server

A child clears its segment of `share_mem`, receives what its client sends into it, and sends its index
to the parent; the parent sends the index to the other children, one after the other, and each of them
reads it and sends the segment to its client. Each call is a step of its own, and children and parent
take their steps in any order; that `epoll_wait` returns an event and what is done on it are steps of
their own too. The pipes are watched edge-triggered, and each event makes one index be read.

What a call of `send` does is part of the step: an index is sent or it is not, and of a segment as many
bytes as the client has room for.

The pipe of a child is named by the number of the child. With each index there travels, for the proofs
only, the message that it announces. The exits of the children are handled as by the loop with
`pid = waitpid(..)`, which has `==` in the source and is not entered there.
-/

namespace LinuxServer.ChatroomMultiprocess

open Core

/-- `BUFFER_SIZE` -/
def bufferSize : ℕ := 1024

/-- A message that a child has announced. -/
structure Message where
  serial : ℕ
  sender : ℕ
  block : Bytes
  deriving DecidableEq

/-- An index in a pipe, and what it announces. -/
structure Announcement where
  idx : ℕ
  message : Message
  deriving DecidableEq

/-- What `recv` from a client answers. -/
inductive Recv
  | data (bytes : Bytes)
  /-- `EAGAIN` -/
  | again
  /-- The client is gone, or there is another error: the child is to leave. -/
  | stop

/-- Where a child is in its loop. -/
inductive ChildAt
  /-- At `epoll_wait`, or at the next event. -/
  | loop
  /-- The segment was cleared, and `recv` is next. -/
  | recv
  /-- A message was received, and its index is to be sent to the parent. -/
  | tell (a : Announcement)
  /-- An index was read, and its segment is to be sent to the client. -/
  | emit (a : Announcement)
  deriving DecidableEq

namespace ChildAt

/-- What is to be sent to the parent. -/
def toTell : ChildAt → List Announcement
  | tell a => [a]
  | _ => []

/-- What is to be sent to the client. -/
def toEmit : ChildAt → List Announcement
  | emit a => [a]
  | _ => []

end ChildAt

/-- The server with its pipes. `upTaken fd` says that the parent has still to handle an event of its
descriptor `fd`, `downTaken c` that the child `c` has to handle one of its pipe; `forward` is what is
left of the parent's loop over the users. Of each child it is kept what the parent sent to it,
what it sent to its client, and what was announced by others while it was there. -/
structure Messages extends ChatroomMultiprocess where
  running : ℕ → Bool
  place : ℕ → ChildAt
  shareMem : ℕ → Bytes
  up : ℕ → Descriptor Announcement
  down : ℕ → Descriptor Announcement
  upTaken : ℕ → Bool
  downTaken : ℕ → Bool
  forward : List (ℕ × Announcement)
  serial : ℕ
  due : ℕ → List Message
  handed : ℕ → List Message
  sent : ℕ → List (Message × Bytes)

namespace Messages

/-- Before the first event. -/
def start (users : ℕ → ClientData) (fds : Finset ℕ) (shareMem : ℕ → Bytes) : Messages where
  toChatroomMultiprocess := .start users fds
  running _ := false
  place _ := .loop
  shareMem := shareMem
  up _ := .empty
  down _ := .empty
  upTaken _ := false
  downTaken _ := false
  forward := []
  serial := 0
  due _ := []
  handed _ := []
  sent _ := []

/-! ### A child -/

/-- A cleared segment. -/
def cleared : Bytes := List.replicate bufferSize 0

/-- A cleared segment that `bytes` were received into. -/
def fill (bytes : Bytes) : Bytes := bytes ++ List.replicate (bufferSize - bytes.length) 0

/-- The segment of the child `c` is written. -/
def write (s : Messages) (c : ℕ) (segment : Bytes) : Messages :=
  { s with shareMem := Function.update s.shareMem (s.child c).idx segment }

def setPlace (s : Messages) (c : ℕ) (place : ChildAt) : Messages :=
  { s with place := Function.update s.place c place }

/-- The child `c` has an event of its client: `memset` of its segment. -/
def childClear (s : Messages) (c : ℕ) : Messages := (s.write c cleared).setPlace c .recv

/-- The message that `c` announces next. -/
def nextMessage (s : Messages) (c : ℕ) (bytes : Bytes) : Message := ⟨s.serial, c, fill bytes⟩

/-- `recv(connfd, ..)` of the child `c` -/
def childRecv (s : Messages) (c : ℕ) : Recv → Messages
  | .data bytes =>
    { (s.write c (putAt (s.shareMem (s.child c).idx) 0 bytes)).setPlace c
        (.tell ⟨(s.child c).idx, s.nextMessage c bytes⟩) with
      serial := s.serial + 1 }
  | _ => s.setPlace c .loop

/-- The index of the child `c` is in its pipe. -/
def announce (s : Messages) (c : ℕ) (a : Announcement) : Messages :=
  { s.setPlace c .loop with
    up := Function.update s.up c ((s.up c).arrive a)
    due := fun j => if j ≠ c ∧ s.running j = true then s.due j ++ [a.message] else s.due j }

/-- `send(pipefd, &idx, ..)` of the child `c`, which may fail -/
def childTell (s : Messages) (c : ℕ) (a : Announcement) (sent : Bool) : Messages :=
  if sent = true then s.announce c a else s.setPlace c .loop

/-- The child leaves `run_child`, or is killed; the parent gets an event of its pipe. -/
def leave (s : Messages) (c : ℕ) : Messages :=
  { s with
    running := Function.update s.running c false
    up := Function.update s.up c { s.up c with event := true } }

/-- `epoll_wait` of the child `c` returns an event of its pipe. -/
def childWake (s : Messages) (c : ℕ) : Messages :=
  { s with
    down := Function.update s.down c (s.down c).wake
    downTaken := Function.update s.downTaken c true }

/-- The child `c` handles it: `recv(sockfd, &client, ..)`, with the index that is read when there is
one. -/
def childTake (s : Messages) (c : ℕ) : Messages :=
  { s.setPlace c (((s.down c).items.head?.map ChildAt.emit).getD .loop) with
    down := Function.update s.down c (s.down c).read
    downTaken := Function.update s.downTaken c false }

/-- `send(connfd, ..)` of the child `c`, which takes `n` bytes of the segment -/
def childEmit (s : Messages) (c : ℕ) (a : Announcement) (n : ℕ) : Messages :=
  { s.setPlace c .loop with
    sent := Function.update s.sent c (s.sent c ++ [(a.message, (s.shareMem a.idx).take n)]) }

/-! ### The parent -/

/-- `pipefd[0]` of every user -/
def pipes (s : Messages) : List ℕ := segment (fun i => (s.users i).pipefd₀) 0 s.userCount

/-- An event of the descriptor is pending. -/
def pending (s : Messages) (fd : ℕ) : Bool :=
  match s.fds fd with
  | some (.pipe c) => (s.up c).event
  | _ => false

/-- `epoll_wait` returns all events that are pending. -/
def parentWake (s : Messages) : Messages :=
  { s with
    upTaken := s.pending
    up := fun c => (s.up c).wake }

/-- The parent handles an event of `fd`: it reads an index, when there is one, and begins its loop over
the users. -/
def parentRead (s : Messages) (fd c : ℕ) : Messages :=
  { s with
    upTaken := Function.update s.upTaken fd false
    up := Function.update s.up c (s.up c).read
    forward := ((s.up c).items.head?.map fun a =>
      (s.pipes.filter fun fd' => fd' ≠ fd).map fun fd' => (fd', a)).getD [] }

/-- The parent handles an event of a descriptor that it has closed. -/
def parentSkip (s : Messages) (fd : ℕ) : Messages :=
  { s with upTaken := Function.update s.upTaken fd false }

/-- The announcement arrives at the child `c`. -/
def hand (s : Messages) (c : ℕ) (a : Announcement) : Messages :=
  { s with
    down := Function.update s.down c ((s.down c).arrive a)
    handed := Function.update s.handed c (s.handed c ++ [a.message]) }

/-- A turn of the loop over the users: `send(users[j].pipefd[0], &child, ..)`, which may fail. What is
sent to a child that has left is lost. -/
def parentSend (s : Messages) (fd : ℕ) (a : Announcement) (rest : List (ℕ × Announcement))
    (sent : Bool) : Messages :=
  match s.fds fd with
  | some (.pipe c) =>
    if s.running c = true ∧ sent = true then { s.hand c a with forward := rest }
    else { s with forward := rest }
  | _ => { s with forward := rest }

/-- The tables are changed, and a child that was forked runs. -/
def withTables (s : Messages) (t : ChatroomMultiprocess) : Messages :=
  { s with
    toChatroomMultiprocess := t
    running := fun c => if s.born ≤ c ∧ c < t.born then true else s.running c }

inductive Event
  | tables (e : ChatroomMultiprocess.Event)
  | childClear (c : ℕ)
  | childRecv (c : ℕ) (result : Recv)
  | childTell (c : ℕ) (sent : Bool)
  | childLeave (c : ℕ)
  | childWake (c : ℕ)
  | childTake (c : ℕ)
  | childEmit (c n : ℕ)
  | parentWake
  | parentRead (fd : ℕ)
  | parentSend (sent : Bool)

/-- `recv` returns between 1 and `BUFFER_SIZE - 1` bytes. -/
def Recv.Valid : Recv → Prop
  | .data bytes => bytes ≠ [] ∧ bytes.length ≤ bufferSize - 1
  | _ => True

inductive Step : Messages → Event → Messages → Prop
  /-- A user is accepted, or a signal is handled. The exit of a child is handled when it has left. -/
  | tables {s : Messages} {e : ChatroomMultiprocess.Event} {t : ChatroomMultiprocess} :
      s.forward = [] → (∀ c, e = .exit c → s.running c = false) →
      ChatroomMultiprocess.Step s.toChatroomMultiprocess e t → Step s (.tables e) (s.withTables t)
  | childClear {s : Messages} {c : ℕ} :
      s.running c = true → s.place c = .loop → Step s (.childClear c) (s.childClear c)
  | childRecv {s : Messages} {c : ℕ} {result : Recv} :
      s.running c = true → s.place c = .recv → Recv.Valid result →
        Step s (.childRecv c result) (s.childRecv c result)
  | childTell {s : Messages} {c : ℕ} {a : Announcement} {sent : Bool} :
      s.running c = true → s.place c = .tell a → Step s (.childTell c sent) (s.childTell c a sent)
  | childLeave {s : Messages} {c : ℕ} : s.running c = true → Step s (.childLeave c) (s.leave c)
  | childWake {s : Messages} {c : ℕ} :
      s.running c = true → s.place c = .loop → s.downTaken c = false → (s.down c).event = true →
        Step s (.childWake c) (s.childWake c)
  | childTake {s : Messages} {c : ℕ} :
      s.running c = true → s.place c = .loop → s.downTaken c = true →
        Step s (.childTake c) (s.childTake c)
  | childEmit {s : Messages} {c n : ℕ} {a : Announcement} :
      s.running c = true → s.place c = .emit a → n ≤ bufferSize →
        Step s (.childEmit c n) (s.childEmit c a n)
  | parentWake {s : Messages} :
      s.forward = [] → (∀ fd, s.upTaken fd = false) → Step s .parentWake s.parentWake
  | parentRead {s : Messages} {fd c : ℕ} :
      s.forward = [] → s.upTaken fd = true → s.fds fd = some (.pipe c) →
        Step s (.parentRead fd) (s.parentRead fd c)
  | parentSkip {s : Messages} {fd : ℕ} :
      s.forward = [] → s.upTaken fd = true → s.fds fd = none → Step s (.parentRead fd) (s.parentSkip fd)
  | parentSend {s : Messages} {fd : ℕ} {a : Announcement} {rest : List (ℕ × Announcement)}
      {sent : Bool} :
      s.forward = (fd, a) :: rest → Step s (.parentSend sent) (s.parentSend fd a rest sent)

/-! ### What the server is for -/

/-- What the child `c` has announced or is to announce, and the parent has not read. -/
def outgoing (s : Messages) (c : ℕ) : List Announcement := (s.up c).items ++ (s.place c).toTell

/-- What the parent sent to the child `c`, and the child has not sent to its client. -/
def incoming (s : Messages) (c : ℕ) : List Announcement := (s.place c).toEmit ++ (s.down c).items

/-- The announcement is under way to a child: its sender is to send it or it is in the pipe, the parent
is sending it around, or a child is to read it or to send the segment. -/
def InFlight (s : Messages) (a : Announcement) : Prop :=
  (∃ fd c, s.fds fd = some (.pipe c) ∧ a ∈ (s.up c).items) ∨
    (∃ c, s.running c = true ∧ s.place c = .tell a) ∨ (∃ fd, (fd, a) ∈ s.forward) ∨
    ∃ c, s.running c = true ∧ a ∈ s.incoming c

/-- No event is pending or being handled. -/
structure Quiescent (s : Messages) : Prop where
  up : ∀ fd, s.pending fd = false ∧ s.upTaken fd = false
  down : ∀ c, s.running c = true →
    (s.down c).event = false ∧ s.downTaken c = false ∧ s.place c = .loop
  forward : s.forward = []

/-- Every message is sent with its bytes, by others than its sender, by each at most once, and by each
that was there when it was announced as soon as all is quiet; and while it is under way it stands in
the segment. -/
structure Delivered (s : Messages) : Prop where
  bytes : ∀ c m b, (m, b) ∈ s.sent c → b = m.block
  sender : ∀ c m b, (m, b) ∈ s.sent c → m.sender ≠ c
  once : ∀ c, ((s.sent c).map Prod.fst).Nodup
  segment : ∀ a, s.InFlight a → s.shareMem a.idx = a.message.block
  all : s.Quiescent → ∀ c, s.running c = true → ∀ m ∈ s.due c, m ∈ (s.sent c).map Prod.fst

/-- A child does not clear its segment or receive into it while it is announced somewhere, and it
receives into a segment that is still clear; a client takes the whole segment; the parent sends no
index to a child with an event of its pipe pending, and what it sends goes through; and when an exit is
handled, `sub_process` leads to the entry of the child, and all that it announced was read. -/
def Admissible (s : Messages) : Event → Prop
  | .tables (.exit c) =>
    (∃ i < s.userCount, s.subProcess (s.child c).pid = i ∧ s.fds (s.users i).pipefd₀ = some (.pipe c)) ∧
      (s.up c).items = []
  | .childClear c => ∀ a, s.InFlight a → a.idx ≠ (s.child c).idx
  | .childRecv c (.data _) =>
    (∀ a, s.InFlight a → a.idx ≠ (s.child c).idx) ∧ s.shareMem (s.child c).idx = cleared
  | .childEmit _ n => n = bufferSize
  | .parentSend sent => ∀ fd a rest c, s.forward = (fd, a) :: rest → s.fds fd = some (.pipe c) →
      s.running c = true → (s.down c).event = false ∧ sent = true
  | _ => True

end Messages

end LinuxServer.ChatroomMultiprocess
