import LinuxServer.Core.CString
import LinuxServer.Core.Trace

/-!
# The client of the chat server

`main` of `chatroom_client.cpp` behind `connect`: `poll` on the terminal and on the socket. What the
server sends is printed; what is typed goes through a pipe to the socket, by two calls of `splice`.

The client holds both ends of the pipe, so a `splice` from the empty pipe waits for bytes that only the
client itself could write, and one into the full pipe for room that only the client could make.
`main` looks at the result of neither: a `splice` that fails moves nothing, and `main` goes on. One to
a socket that the server has closed may end the client by SIGPIPE.
-/

namespace LinuxServer

open Core

namespace ChatroomClient

/-- `BUFFER_SIZE` -/
def bufferSize : ℕ := 64

/-- The length that `splice` is given. -/
def spliceLen : ℕ := 32768

/-- The bits of `fds[1].revents` and of `fds[0].revents` that are looked at. -/
structure Revents where
  pollRdHup : Bool
  pollIn : Bool
  stdin : Bool
  deriving DecidableEq

/-- Where the client is: at `poll`; at the tests of `fds[1].revents` and of `fds[0].revents`; at the
second `splice`; behind the loop. -/
inductive ClientAt
  | poll
  | socket (revents : Revents)
  | stdin (pollIn : Bool)
  | toSocket
  | closed
  deriving DecidableEq

end ChatroomClient

open ChatroomClient in
/-- The client. `input` is what waits at the terminal, `received` what waits at the socket; `typed`,
`heard` and `sent` are what was typed, what the server has sent and what was sent to the server so far.
Of what was received there are kept the bytes of each `recv`. -/
structure ChatroomClient where
  pipeSize : ℕ
  input : Bytes
  inputEnded : Bool
  pipe : Bytes
  received : Bytes
  serverClosed : Bool
  place : ClientAt
  output : List Bytes
  typed : Bytes
  heard : Bytes
  sent : Bytes
  recvs : List Bytes

namespace ChatroomClient

/-- At the first call of `poll`. -/
def init (pipeSize : ℕ) : ChatroomClient where
  pipeSize := pipeSize
  input := []
  inputEnded := false
  pipe := []
  received := []
  serverClosed := false
  place := .poll
  output := []
  typed := []
  heard := []
  sent := []
  recvs := []

/-! ### The terminal and the server -/

def type (s : ChatroomClient) (data : Bytes) : ChatroomClient :=
  { s with input := s.input ++ data, typed := s.typed ++ data }

def endInput (s : ChatroomClient) : ChatroomClient := { s with inputEnded := true }

def arrive (s : ChatroomClient) (data : Bytes) : ChatroomClient :=
  { s with received := s.received ++ data, heard := s.heard ++ data }

def serverCloses (s : ChatroomClient) : ChatroomClient := { s with serverClosed := true }

/-! ### The loop -/

def goto (s : ChatroomClient) (place : ClientAt) : ChatroomClient := { s with place := place }

/-- What `poll` says of the socket is how it is; of the terminal it says that there is something to read,
and it may say so of the end. -/
structure Reports (s : ChatroomClient) (r : Revents) : Prop where
  pollRdHup : r.pollRdHup = s.serverClosed
  pollIn : r.pollIn = true ↔ s.received ≠ [] ∨ s.serverClosed = true
  input : s.input ≠ [] → r.stdin = true
  stdin : r.stdin = true → s.input ≠ [] ∨ s.inputEnded = true

/-- The buffer behind `memset` and `recv`. -/
def readBuf (data : Bytes) : Bytes := data ++ .replicate (bufferSize - data.length) 0

/-- `recv` has got `n` bytes, and the buffer is printed. -/
def recv (s : ChatroomClient) (n : ℕ) (stdin : Bool) : ChatroomClient :=
  { s with
    received := s.received.drop n
    output := s.output ++ [cut (readBuf (s.received.take n))]
    recvs := s.recvs ++ [s.received.take n]
    place := .stdin stdin }

/-- `recv` has failed, and the buffer is printed. -/
def recvFails (s : ChatroomClient) (stdin : Bool) : ChatroomClient :=
  { s with output := s.output ++ [cut (readBuf [])], recvs := s.recvs ++ [[]], place := .stdin stdin }

/-- The first `splice` has moved `n` bytes. -/
def toPipe (s : ChatroomClient) (n : ℕ) : ChatroomClient :=
  { s with input := s.input.drop n, pipe := s.pipe ++ s.input.take n, place := .toSocket }

/-- The second `splice` has moved `n` bytes. -/
def toSocket (s : ChatroomClient) (n : ℕ) : ChatroomClient :=
  { s with pipe := s.pipe.drop n, sent := s.sent ++ s.pipe.take n, place := .poll }

inductive Event
  | type (data : Bytes)
  | endInput
  | arrive (data : Bytes)
  | serverCloses
  | poll (r : Revents)
  | pollFails
  /-- The server has closed the connection: the loop ends. -/
  | hangUp
  | recv (n : ℕ)
  | recvFails
  /-- There is nothing at the socket, or nothing at the terminal. -/
  | skip
  | toPipe (n : ℕ)
  /-- The first `splice` finds the end of what is typed. -/
  | endOfInput
  | toPipeFails
  | toSocket (n : ℕ)
  | toSocketFails
  | sigpipe

inductive Step : ChatroomClient → Event → ChatroomClient → Prop
  | type {s : ChatroomClient} (data : Bytes) : s.inputEnded = false → Step s (.type data) (s.type data)
  | endInput {s : ChatroomClient} : Step s .endInput s.endInput
  | arrive {s : ChatroomClient} (data : Bytes) : s.serverClosed = false →
      Step s (.arrive data) (s.arrive data)
  | serverCloses {s : ChatroomClient} : Step s .serverCloses s.serverCloses
  | poll {s : ChatroomClient} (r : Revents) : s.place = .poll → s.Reports r →
      Step s (.poll r) (s.goto (.socket r))
  | pollFails {s : ChatroomClient} : s.place = .poll → Step s .pollFails (s.goto .closed)
  | hangUp {s : ChatroomClient} {r : Revents} : s.place = .socket r → r.pollRdHup = true →
      Step s .hangUp (s.goto .closed)
  | recv {s : ChatroomClient} {r : Revents} {n : ℕ} : s.place = .socket r → r.pollRdHup = false →
      r.pollIn = true → 0 < n → n ≤ bufferSize - 1 → n ≤ s.received.length →
      Step s (.recv n) (s.recv n r.stdin)
  | recvFails {s : ChatroomClient} {r : Revents} : s.place = .socket r → r.pollRdHup = false →
      r.pollIn = true → Step s .recvFails (s.recvFails r.stdin)
  | skipSocket {s : ChatroomClient} {r : Revents} : s.place = .socket r → r.pollRdHup = false →
      r.pollIn = false → Step s .skip (s.goto (.stdin r.stdin))
  | skipStdin {s : ChatroomClient} : s.place = .stdin false → Step s .skip (s.goto .poll)
  | toPipe {s : ChatroomClient} {n : ℕ} : s.place = .stdin true → 0 < n → n ≤ spliceLen →
      n ≤ s.input.length → s.pipe.length + n ≤ s.pipeSize → Step s (.toPipe n) (s.toPipe n)
  | endOfInput {s : ChatroomClient} : s.place = .stdin true → s.input = [] → s.inputEnded = true →
      Step s .endOfInput (s.goto .toSocket)
  | toPipeFails {s : ChatroomClient} : s.place = .stdin true → Step s .toPipeFails (s.goto .toSocket)
  | toSocket {s : ChatroomClient} {n : ℕ} : s.place = .toSocket → 0 < n → n ≤ spliceLen →
      n ≤ s.pipe.length → Step s (.toSocket n) (s.toSocket n)
  | toSocketFails {s : ChatroomClient} : s.place = .toSocket → Step s .toSocketFails (s.goto .poll)
  | sigpipe {s : ChatroomClient} : s.place = .toSocket → s.pipe ≠ [] → s.serverClosed = true →
      Step s .sigpipe (s.goto .closed)

end ChatroomClient

end LinuxServer
