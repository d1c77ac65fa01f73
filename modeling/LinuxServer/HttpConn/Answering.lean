import LinuxServer.HttpConn.Basic

/-!
# Answering a request in `http_conn`

The members of `http_conn` that an answer is built with, `process_write` and `write`. An answer is what
`m_iv` points to: the front of `m_write_buf`, and a file in memory. A turn of the loop of
`write` is a step, with what `writev` returned in it.

`add_content_length` is declared and not defined; the line that it appends is a parameter.
`add_headers` ends without a `return`; nobody looks at its value, and so it has none here.
-/

namespace LinuxServer

open Core

namespace HttpConn

/-- What `iov_base` points to. -/
inductive IovBase
  | writeBuf
  | file (address : Option ℕ)
  deriving DecidableEq

/-- `iovec` -/
structure Iovec where
  base : IovBase
  len : ℕ
  deriving DecidableEq

/-- `struct stat` -/
structure FileStat where
  size : ℕ

/-- `http_conn`, with the members that answering works on. -/
structure Answering extends HttpConn where
  writeBuf : Bytes
  writeIdx : ℕ
  realFile : Bytes
  fileAddress : Option ℕ
  fileStat : FileStat
  iv : Fin 2 → Iovec
  ivCount : ℕ

/-- `WRITE_BUFFER_SIZE` -/
def writeBufferSize : ℕ := 2048

/-- `FILENAME_LEN` -/
def filenameLen : ℕ := 200

def ok200Title : Bytes := ascii "OK".toList

def error400Title : Bytes := ascii "Bad Request".toList

def error400Form : Bytes :=
  ascii "Your request has bad syntax or is inherently impossible to satisfy.\n".toList

def error403Title : Bytes := ascii "Forbidden".toList

def error403Form : Bytes :=
  ascii "You do not have permission to get file from this server.\n".toList

def error404Title : Bytes := ascii "Not Found".toList

def error404Form : Bytes := ascii "THe requested file was not found on this server\n".toList

def error500Title : Bytes := ascii "Internal Error".toList

def error500Form : Bytes :=
  ascii "There was an unusual problem serving the requested file\n".toList

/-- `ok_string` -/
def okString : Bytes := ascii "<html><body></body></html>".toList

/-- `"\r\n"` -/
def crlf : Bytes := [cr, lf]

/-- `%d` -/
def decimal (n : ℤ) : Bytes := ascii (toString n).toList

/-- A file size as an `int`. -/
def toInt (size : ℕ) : ℤ := (BitVec.ofNat 32 size).toInt

/-- `vsnprintf(buf + p, size, ..)`, for the text that the format stands for. -/
def vsnprintf (buf : Bytes) (p size : ℕ) (text : Bytes) : Bytes :=
  if size = 0 then
    buf
  else
    let out := text.take (size - 1) ++ [0]
    buf.take p ++ out ++ buf.drop (p + out.length)

namespace Answering

/-- `init()` -/
def init (s : Answering) : Answering :=
  { s with
    toHttpConn := HttpConn.init
    writeBuf := List.replicate writeBufferSize 0
    writeIdx := 0
    realFile := List.replicate filenameLen 0 }

/-- `add_response(format, ..)`, for the text that the format stands for. -/
def addResponse (s : Answering) (text : Bytes) : Bool × Answering :=
  if writeBufferSize ≤ s.writeIdx then
    (false, s)
  else
    let size := writeBufferSize - 1 - s.writeIdx
    let s := { s with writeBuf := vsnprintf s.writeBuf s.writeIdx size text }
    if size ≤ text.length then
      (false, s)
    else
      (true, { s with writeIdx := s.writeIdx + text.length })

/-- `add_status_line(status, title)` -/
def addStatusLine (s : Answering) (status : ℤ) (title : Bytes) : Bool × Answering :=
  s.addResponse (ascii "HTTP/1.1 ".toList ++ decimal status ++ ascii " ".toList ++ title ++ crlf)

/-- `add_linger()` -/
def addLinger (s : Answering) : Bool × Answering :=
  s.addResponse (ascii "Connection: ".toList ++
    (if s.linger = true then ascii "keep-alive".toList else ascii "close".toList) ++ crlf)

/-- `add_blank_line()` -/
def addBlankLine (s : Answering) : Bool × Answering := s.addResponse crlf

/-- `add_content(content)` -/
def addContent (s : Answering) (content : Bytes) : Bool × Answering := s.addResponse content

section

variable (lengthLine : ℤ → Bytes)

/-- `add_content_length(content_len)` -/
def addContentLength (s : Answering) (contentLen : ℤ) : Bool × Answering :=
  s.addResponse (lengthLine contentLen)

/-- `add_headers(content_len)` -/
def addHeaders (s : Answering) (contentLen : ℤ) : Answering :=
  (s.addContentLength lengthLine contentLen).2.addLinger.2.addBlankLine.2

/-- A case of `process_write` that answers with a form, and what stands behind the `switch`. -/
def answerForm (s : Answering) (status : ℤ) (title form : Bytes) : Bool × Answering :=
  let s := ((s.addStatusLine status title).2.addHeaders lengthLine form.length)
  let (added, s) := s.addContent form
  if added = false then
    (false, s)
  else
    (false, { s with
      iv := Function.update s.iv 0 ⟨.writeBuf, s.writeIdx⟩
      ivCount := 1 })

/-- `process_write(ret)`. An empty file falls through to the default. -/
def processWrite (s : Answering) : HttpCode → Bool × Answering
  | .internalError => s.answerForm lengthLine 500 error500Title error500Form
  | .badRequest => s.answerForm lengthLine 400 error400Title error400Form
  | .noResource => s.answerForm lengthLine 404 error404Title error404Form
  | .forbiddenRequest => s.answerForm lengthLine 403 error403Title error403Form
  | .fileRequest =>
    let s := (s.addStatusLine 200 ok200Title).2
    if s.fileStat.size ≠ 0 then
      let s := s.addHeaders lengthLine (toInt s.fileStat.size)
      (true, { s with
        iv := Function.update (Function.update s.iv 0 ⟨.writeBuf, s.writeIdx⟩) 1
          ⟨.file s.fileAddress, s.fileStat.size⟩
        ivCount := 2 })
    else
      let s := s.addHeaders lengthLine okString.length
      (false, (s.addContent okString).2)
  | _ => (false, s)

end

/-- What `writev` returns: the bytes it took, -1 with `EAGAIN`, -1 with another error. -/
inductive Writev
  | sent (n : ℕ)
  | eagain
  | error
  deriving DecidableEq

/-- What `mod_fd` waits for. -/
inductive EpollEvent
  | epollIn
  | epollOut
  deriving DecidableEq

inductive Effect
  | modFd (ev : EpollEvent)
  | munmap (address size : ℕ)
  deriving DecidableEq

/-- `unmap()` -/
def unmap (s : Answering) : List Effect × Answering :=
  match s.fileAddress with
  | some address => ([.munmap address s.fileStat.size], { s with fileAddress := none })
  | none => ([], s)

/-- `write()` up to its loop, and what it returns if it returns. -/
def writeBegin (s : Answering) : List Effect × Option Bool × Answering :=
  if s.writeIdx = 0 then ([.modFd .epollIn], some true, s.init) else ([], none, s)

/-- A turn of the loop of `write`, and what it returns if it returns. The loop has no other way out, and
what stands behind it is not reached. -/
def writeTurn (s : Answering) : Writev → List Effect × Option Bool × Answering
  | .sent _ => ([], none, s)
  | .eagain => ([.modFd .epollOut], some true, s)
  | .error =>
    let (effects, s) := s.unmap
    (effects, some false, s)

end Answering

end HttpConn

end LinuxServer
