import LinuxServer.Core.CString
import LinuxServer.Core.EdgeTriggered
import LinuxServer.Core.Trace
import LinuxServer.Core.Watched

/-!
# Reflecting by TCP and by UDP

The loop of `tcpudp_reflect.cpp`. Everything is watched edge-triggered. For an event of the listening
socket there is one call of `accept`, for one of the UDP socket one call of `recvfrom`; a connection is
read until there is nothing left, and what is read is sent back.

A connection at its end is closed, and the loop goes on to read it: this `recv` fails, since the
descriptor is closed, and the descriptor is closed once more.

That the process ends when `epoll_wait` fails, or by SIGPIPE, is left out. `epoll_ctl` and `fcntl` are
taken to succeed; what is sent back is what `send` and `sendto` are given, and of it what `send` takes.
-/

namespace LinuxServer

open Core

namespace TcpudpReflect

/-- `MAX_EVENT_NUMBER` -/
def maxEventNumber : ℕ := 1024

/-- `UDP_BUFFER_SIZE` -/
def udpBufferSize : ℕ := 1024

/-- `TCP_BUFFER_SIZE` -/
def tcpBufferSize : ℕ := 512

/-- A datagram, with the address of the client it is from or goes to. -/
structure Datagram where
  clientAddr : ℕ
  data : Bytes
  deriving DecidableEq

/-- A connection: which client it is from, in the order of `accept`, and its stream. -/
structure Conn where
  client : ℕ
  stream : Watched UInt8

/-- An entry of `events`: `data.fd`, and whether `EPOLLIN` is set. -/
structure Ready where
  fd : ℕ
  epollIn : Bool
  deriving DecidableEq

/-- Where the loop is: before the next entry of `events`, or at `epoll_wait` when there is none; at `recv`;
at the `send` of what was read from `client`. -/
inductive LoopAt
  | entry
  | recv (sockfd : ℕ)
  | send (sockfd : ℕ) (data : Bytes) (client : ℕ)
  deriving DecidableEq

/-- The buffer behind `memset` and `recvfrom`, which is sent back but for its last byte. -/
def reply (d : Datagram) : Datagram where
  clientAddr := d.clientAddr
  data :=
    let got := d.data.take (udpBufferSize - 1)
    got ++ .replicate (udpBufferSize - 1 - got.length) 0

end TcpudpReflect

open TcpudpReflect in
/-- The server. `batch` are the entries of `events` that the loop has still to handle. Of the datagrams
there are kept those that came, those that `recvfrom` got and those that `sendto` was given. Of every
client there is kept what it has sent, whether it has closed its end, what `recv` got of it, what
`send` took for it, and what was not read when `recv` failed. -/
structure TcpudpReflect where
  listenfd : ℕ
  udpfd : ℕ
  listen : Descriptor Unit
  udp : Descriptor Datagram
  conn : ℕ → Option Conn
  batch : List Ready
  place : LoopAt
  came : List Datagram
  asked : List Datagram
  replies : List Datagram
  clients : ℕ
  sent : ℕ → Bytes
  ended : ℕ → Bool
  got : ℕ → Bytes
  reflected : ℕ → Bytes
  lost : ℕ → Option Bytes

namespace TcpudpReflect

/-- At the first call of `epoll_wait`. -/
def init (listenfd udpfd : ℕ) : TcpudpReflect where
  listenfd := listenfd
  udpfd := udpfd
  listen := Descriptor.empty
  udp := Descriptor.empty
  conn _ := none
  batch := []
  place := .entry
  came := []
  asked := []
  replies := []
  clients := 0
  sent _ := []
  ended _ := false
  got _ := []
  reflected _ := []
  lost _ := none

/-! ### The clients -/

def connect (s : TcpudpReflect) : TcpudpReflect := { s with listen := s.listen.arrive () }

def datagram (s : TcpudpReflect) (d : Datagram) : TcpudpReflect :=
  { s with udp := s.udp.arrive d, came := s.came ++ [d] }

def arrive (s : TcpudpReflect) (fd : ℕ) (c : Conn) (data : Bytes) : TcpudpReflect :=
  { s with
    conn := Function.update s.conn fd (some { c with stream := c.stream.arrive data })
    sent := Function.update s.sent c.client (s.sent c.client ++ data) }

def finish (s : TcpudpReflect) (fd : ℕ) (c : Conn) : TcpudpReflect :=
  { s with
    conn := Function.update s.conn fd (some { c with stream := c.stream.finish })
    ended := Function.update s.ended c.client true }

/-! ### The loop -/

/-- `epoll_wait` may report the entry. -/
def Reportable (s : TcpudpReflect) (e : Ready) : Prop :=
  (e.fd = s.listenfd ∧ s.listen.event = true) ∨ (e.fd = s.udpfd ∧ s.udp.event = true) ∨
    ∃ c, s.conn e.fd = some c ∧ e.epollIn = c.stream.readable ∧ (e.epollIn = true → c.stream.ready = true)

/-- `epoll_wait` returns with `events`. -/
def wait (s : TcpudpReflect) (events : List Ready) : TcpudpReflect :=
  { s with
    listen := if s.listenfd ∈ events.map (·.fd) then s.listen.wake else s.listen
    udp := if s.udpfd ∈ events.map (·.fd) then s.udp.wake else s.udp
    conn := fun fd =>
      if fd ∈ events.map (·.fd) then
        (s.conn fd).map fun c => { c with stream := c.stream.report }
      else
        s.conn fd
    batch := events }

/-- The loop goes on to the next entry. -/
def next (s : TcpudpReflect) : TcpudpReflect := { s with batch := s.batch.tail, place := .entry }

/-- `accept` and `addfd(epollfd, connfd)`, for a client that has sent `data` by then and maybe closed
its end. -/
def accept (s : TcpudpReflect) (connfd : ℕ) (data : Bytes) (ended : Bool) : TcpudpReflect :=
  { s.next with
    listen := s.listen.read
    conn := Function.update s.conn connfd (some ⟨s.clients, Watched.arm ⟨data, ended, false, false⟩⟩)
    clients := s.clients + 1
    sent := Function.update s.sent s.clients data
    ended := Function.update s.ended s.clients ended }

/-- `recvfrom` has got `d`, which is answered if it is not empty. -/
def recvfrom (s : TcpudpReflect) (d : Datagram) : TcpudpReflect :=
  { s.next with
    udp := s.udp.read
    asked := s.asked ++ [d]
    replies := if d.data = [] then s.replies else s.replies ++ [reply d] }

def goto (s : TcpudpReflect) (place : LoopAt) : TcpudpReflect := { s with place := place }

/-- `recv` returns `ret`, which is positive. -/
def recv (s : TcpudpReflect) (sockfd : ℕ) (c : Conn) (ret : ℕ) : TcpudpReflect :=
  { s.goto (.send sockfd (c.stream.unread.take ret) c.client) with
    conn := Function.update s.conn sockfd (some { c with stream := c.stream.take ret })
    got := Function.update s.got c.client (s.got c.client ++ c.stream.unread.take ret) }

/-- `send` has taken `n` bytes, none if it fails. -/
def send (s : TcpudpReflect) (sockfd : ℕ) (data : Bytes) (client n : ℕ) : TcpudpReflect :=
  { s.goto (.recv sockfd) with
    reflected := Function.update s.reflected client (s.reflected client ++ data.take n) }

/-- `close(sockfd)`, which fails on a descriptor that is closed. -/
def close (s : TcpudpReflect) (sockfd : ℕ) : TcpudpReflect :=
  { s with conn := Function.update s.conn sockfd none }

/-- `recv` has failed, and not because there was nothing to read. -/
def lose (s : TcpudpReflect) (sockfd : ℕ) (c : Conn) : TcpudpReflect :=
  { (s.close sockfd).next with lost := Function.update s.lost c.client (some c.stream.unread) }

/-! ### Steps -/

inductive Event
  | connect
  | datagram (d : Datagram)
  | arrive (fd : ℕ) (data : Bytes)
  | finish (fd : ℕ)
  | wait (events : List Ready)
  | accept (connfd : ℕ) (data : Bytes) (ended : Bool)
  /-- `accept` returns -1, and `addfd` fails. -/
  | acceptFails
  | recvfrom
  /-- `recvfrom` returns -1. -/
  | recvfromFails
  | enter
  /-- `something else happend` -/
  | other
  | recv (ret : ℕ)
  | recvEnd
  | recvAgain
  /-- `recv` returns -1 with another error than `EAGAIN`. -/
  | recvFails
  /-- `recv` on the closed descriptor -/
  | recvClosed
  | send (n : ℕ)
  deriving DecidableEq

inductive Step : TcpudpReflect → Event → TcpudpReflect → Prop
  | connect {s : TcpudpReflect} : Step s .connect s.connect
  | datagram {s : TcpudpReflect} {d : Datagram} : Step s (.datagram d) (s.datagram d)
  | arrive {s : TcpudpReflect} {fd : ℕ} {c : Conn} {data : Bytes} :
      s.conn fd = some c → c.stream.ended = false → Step s (.arrive fd data) (s.arrive fd c data)
  | finish {s : TcpudpReflect} {fd : ℕ} {c : Conn} :
      s.conn fd = some c → Step s (.finish fd) (s.finish fd c)
  | wait {s : TcpudpReflect} {events : List Ready} :
      s.place = .entry → s.batch = [] → events ≠ [] → events.length ≤ maxEventNumber →
        (events.map (·.fd)).Nodup → (∀ e ∈ events, s.Reportable e) → Step s (.wait events) (s.wait events)
  | accept {s : TcpudpReflect} {e : Ready} {rest : List Ready} {connfd : ℕ} {data : Bytes} {ended : Bool} :
      s.place = .entry → s.batch = e :: rest → e.fd = s.listenfd → s.listen.items ≠ [] →
        s.conn connfd = none → connfd ≠ s.listenfd → connfd ≠ s.udpfd →
        Step s (.accept connfd data ended) (s.accept connfd data ended)
  | acceptFails {s : TcpudpReflect} {e : Ready} {rest : List Ready} :
      s.place = .entry → s.batch = e :: rest → e.fd = s.listenfd → Step s .acceptFails s.next
  | recvfrom {s : TcpudpReflect} {e : Ready} {rest : List Ready} {d : Datagram} {ds : List Datagram} :
      s.place = .entry → s.batch = e :: rest → e.fd ≠ s.listenfd → e.fd = s.udpfd → s.udp.items = d :: ds →
        Step s .recvfrom (s.recvfrom d)
  | recvfromFails {s : TcpudpReflect} {e : Ready} {rest : List Ready} :
      s.place = .entry → s.batch = e :: rest → e.fd ≠ s.listenfd → e.fd = s.udpfd →
        Step s .recvfromFails s.next
  | enter {s : TcpudpReflect} {e : Ready} {rest : List Ready} :
      s.place = .entry → s.batch = e :: rest → e.fd ≠ s.listenfd → e.fd ≠ s.udpfd → e.epollIn = true →
        Step s .enter (s.goto (.recv e.fd))
  | other {s : TcpudpReflect} {e : Ready} {rest : List Ready} :
      s.place = .entry → s.batch = e :: rest → e.fd ≠ s.listenfd → e.fd ≠ s.udpfd → e.epollIn = false →
        Step s .other s.next
  | recv {s : TcpudpReflect} {sockfd ret : ℕ} {c : Conn} :
      s.place = .recv sockfd → s.conn sockfd = some c → 0 < ret → ret ≤ tcpBufferSize - 1 →
        ret ≤ c.stream.unread.length → Step s (.recv ret) (s.recv sockfd c ret)
  | recvEnd {s : TcpudpReflect} {sockfd : ℕ} {c : Conn} :
      s.place = .recv sockfd → s.conn sockfd = some c → c.stream.unread = [] → c.stream.ended = true →
        Step s .recvEnd (s.close sockfd)
  | recvAgain {s : TcpudpReflect} {sockfd : ℕ} {c : Conn} :
      s.place = .recv sockfd → s.conn sockfd = some c → c.stream.unread = [] → c.stream.ended = false →
        Step s .recvAgain s.next
  | recvFails {s : TcpudpReflect} {sockfd : ℕ} {c : Conn} :
      s.place = .recv sockfd → s.conn sockfd = some c → Step s .recvFails (s.lose sockfd c)
  | recvClosed {s : TcpudpReflect} {sockfd : ℕ} :
      s.place = .recv sockfd → s.conn sockfd = none → Step s .recvClosed (s.close sockfd).next
  | send {s : TcpudpReflect} {sockfd client n : ℕ} {data : Bytes} :
      s.place = .send sockfd data client → n ≤ data.length → Step s (.send n) (s.send sockfd data client n)

end TcpudpReflect

end LinuxServer
