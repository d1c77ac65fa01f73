import LinuxServer.HttpConn.Serving
import LinuxServer.HttpConn.Writing

/-!
# Clients that use one object after the other

`init` leaves `m_file_address`, `m_file_stat`, `m_iv` and `m_iv_count` as the client before has left
them. Before one of them goes into an answer it is set: the file by `do_request`, and `m_iv` by
`process_write`. So two objects cannot be told apart by the answers that they give behind
`init`, whatever was in them.
-/

namespace LinuxServer.HttpConn

open Core

open Answering (Writev)

/-- What an object may be given behind `init`: bytes to read, a call of `process`, a call of `write`. -/
inductive Input
  | receive (chunk : Bytes)
  | process (fs : FileSystem)
  | write (rs : List Writev)

/-- What is seen of it: the code of `process_read`, the path that was looked up, what `process_write`
returned and, if that is true, the bytes and the entries of `m_iv` that are to be sent; what
`write` returned. -/
inductive Output
  | received
  | processed (code : HttpCode) (path : Option Bytes) (written : Option Bool)
      (response : Option (Bytes × List Iovec))
  | wrote (returned : Bool)
  deriving DecidableEq

namespace Answering

/-- What is to be sent: the bytes of the write buffer, and the entries of `m_iv` that count. -/
def response (s : Answering) : Bytes × List Iovec :=
  (s.writeBuf.take s.writeIdx, ((List.finRange 2).take s.ivCount).map s.iv)

/-- Nothing differs but what `init` does not set. -/
structure Alike (s t : Answering) : Prop where
  toHttpConn : s.toHttpConn = t.toHttpConn
  writeBuf : s.writeBuf = t.writeBuf
  writeIdx : s.writeIdx = t.writeIdx
  realFile : s.realFile = t.realFile

/-- The file is the same too. -/
structure SameFile (s t : Answering) : Prop where
  fileStat : s.fileStat = t.fileStat
  fileAddress : s.fileAddress = t.fileAddress

end Answering

namespace Serving

def Processed.output (p : Processed) : Output :=
  .processed p.lookup.code p.lookup.path p.written
    (if p.written = some true then some p.conn.response else none)

/-- A call, and what is seen of it. -/
def turn (lengthLine : ℤ → Bytes) : Input → Serving → Option (Output × Serving)
  | .receive chunk, s => some (.received, s.receive chunk)
  | .process fs, s => (s.process lengthLine fs).map fun p => (p.output, p.conn)
  | .write rs, s =>
    match s.write rs with
    | (_, some returned, s) => some (.wrote returned, s)
    | (_, none, _) => none

end Serving

namespace Answering

variable {s t : Answering} (lengthLine : ℤ → Bytes)

/-! ### What `process_write` adds -/

lemma alike_init (s t : Answering) : Alike s.init t.init := ⟨rfl, rfl, rfl, rfl⟩

/-- `m_iv` is not compared. -/
lemma Alike.setIv (h : Alike s t) (iv iv' : Fin 2 → Iovec) (ivCount ivCount' : ℕ) :
    Alike { s with iv := iv, ivCount := ivCount } { t with iv := iv', ivCount := ivCount' } :=
  ⟨h.toHttpConn, h.writeBuf, h.writeIdx, h.realFile⟩

lemma Alike.addResponse (h : Alike s t) (text : Bytes) :
    (s.addResponse text).1 = (t.addResponse text).1 ∧
      Alike (s.addResponse text).2 (t.addResponse text).2 := by
  rw [Answering.addResponse, Answering.addResponse, h.writeIdx, h.writeBuf]
  split
  · exact ⟨rfl, h⟩
  · dsimp only
    split
    · exact ⟨rfl, h.toHttpConn, rfl, rfl, h.realFile⟩
    · exact ⟨rfl, h.toHttpConn, rfl, rfl, h.realFile⟩

lemma Alike.addHeaders (h : Alike s t) (n : ℤ) :
    Alike (s.addHeaders lengthLine n) (t.addHeaders lengthLine n) := by
  have hlength := (h.addResponse (lengthLine n)).2
  have hlinger : (s.addContentLength lengthLine n).2.linger = (t.addContentLength lengthLine n).2.linger :=
    congrArg HttpConn.linger hlength.toHttpConn
  rw [Answering.addHeaders, Answering.addHeaders, addLinger, addLinger, hlinger]
  exact ((hlength.addResponse _).2.addResponse crlf).2

lemma Alike.addStatusLine (h : Alike s t) (status : ℤ) (title : Bytes) :
    Alike (s.addStatusLine status title).2 (t.addStatusLine status title).2 := (h.addResponse _).2

lemma SameFile.addStatusLine (h : SameFile s t) (status : ℤ) (title : Bytes) :
    SameFile (s.addStatusLine status title).2 (t.addStatusLine status title).2 := by
  obtain ⟨_, _, hs⟩ := addResponse_eq s
    (ascii "HTTP/1.1 ".toList ++ decimal status ++ ascii " ".toList ++ title ++ crlf)
  obtain ⟨_, _, ht⟩ := addResponse_eq t
    (ascii "HTTP/1.1 ".toList ++ decimal status ++ ascii " ".toList ++ title ++ crlf)
  rw [Answering.addStatusLine, Answering.addStatusLine, hs, ht]
  exact ⟨h.fileStat, h.fileAddress⟩

lemma SameFile.addHeaders (h : SameFile s t) (n : ℤ) :
    SameFile (s.addHeaders lengthLine n) (t.addHeaders lengthLine n) := by
  obtain ⟨_, _, hs⟩ := addHeaders_eq s lengthLine n
  obtain ⟨_, _, ht⟩ := addHeaders_eq t lengthLine n
  rw [hs, ht]
  exact ⟨h.fileStat, h.fileAddress⟩

lemma Alike.answerForm (h : Alike s t) (status : ℤ) (title form : Bytes) :
    Alike (s.answerForm lengthLine status title form).2 (t.answerForm lengthLine status title form).2 := by
  have hheaders := (h.addStatusLine status title).addHeaders lengthLine form.length
  obtain ⟨hadded, hcontent⟩ := hheaders.addResponse form
  rw [Answering.answerForm, Answering.answerForm, addContent, addContent]
  dsimp only
  rw [hadded]
  split
  · exact hcontent
  · exact hcontent.setIv _ _ _ _

/-- `process_write` returns the same, and when it returns true there is the same to be sent. -/
lemma Alike.processWrite (h : Alike s t) (ret : HttpCode) (hfile : ret = .fileRequest → SameFile s t) :
    (s.processWrite lengthLine ret).1 = (t.processWrite lengthLine ret).1 ∧
      Alike (s.processWrite lengthLine ret).2 (t.processWrite lengthLine ret).2 ∧
      ((s.processWrite lengthLine ret).1 = true →
        (s.processWrite lengthLine ret).2.response = (t.processWrite lengthLine ret).2.response) := by
  have hform : ∀ status title form,
      (s.answerForm lengthLine status title form).1 = (t.answerForm lengthLine status title form).1 ∧
      Alike (s.answerForm lengthLine status title form).2 (t.answerForm lengthLine status title form).2 ∧
      ((s.answerForm lengthLine status title form).1 = true →
        (s.answerForm lengthLine status title form).2.response =
          (t.answerForm lengthLine status title form).2.response) := by
    intro status title form
    refine ⟨?_, h.answerForm lengthLine status title form, fun htrue => ?_⟩
    · rw [answerForm_fst, answerForm_fst]
    · rw [answerForm_fst] at htrue
      cases htrue
  cases ret with
  | internalError =>
    rw [Answering.processWrite, Answering.processWrite]
    exact hform _ _ _
  | badRequest =>
    rw [Answering.processWrite, Answering.processWrite]
    exact hform _ _ _
  | noResource =>
    rw [Answering.processWrite, Answering.processWrite]
    exact hform _ _ _
  | forbiddenRequest =>
    rw [Answering.processWrite, Answering.processWrite]
    exact hform _ _ _
  | fileRequest =>
    have hstatus := h.addStatusLine 200 ok200Title
    have hsame := (hfile rfl).addStatusLine 200 ok200Title
    rw [Answering.processWrite, Answering.processWrite]
    dsimp only
    rw [hsame.fileStat]
    split
    · have hheaders := hstatus.addHeaders lengthLine
        (toInt (t.addStatusLine 200 ok200Title).2.fileStat.size)
      have hfile' := hsame.addHeaders lengthLine
        (toInt (t.addStatusLine 200 ok200Title).2.fileStat.size)
      refine ⟨rfl, hheaders.setIv _ _ _ _, fun _ => ?_⟩
      -- both entries of `m_iv` have just been set
      have hiv : ∀ (iv iv' : Fin 2 → Iovec) (x y : Iovec),
          Function.update (Function.update iv 0 x) 1 y = Function.update (Function.update iv' 0 x) 1 y := by
        intro iv iv' x y
        ext1 i
        fin_cases i
        · rfl
        · rfl
      rw [response, response]
      dsimp only
      rw [hheaders.writeBuf, hheaders.writeIdx, hfile'.fileStat, hfile'.fileAddress, hiv]
    · have hheaders := hstatus.addHeaders lengthLine okString.length
      exact ⟨rfl, (hheaders.addResponse okString).2, fun htrue => Bool.noConfusion htrue⟩
  | noRequest => exact ⟨rfl, h, fun htrue => Bool.noConfusion htrue⟩
  | getRequest => exact ⟨rfl, h, fun htrue => Bool.noConfusion htrue⟩
  | closedConnect => exact ⟨rfl, h, fun htrue => Bool.noConfusion htrue⟩

/-! ### What `write` leaves -/

lemma Alike.writeTurn (h : Alike s t) (r : Writev) :
    (s.writeTurn r).2.1 = (t.writeTurn r).2.1 ∧ Alike (s.writeTurn r).2.2 (t.writeTurn r).2.2 := by
  cases r with
  | sent n => exact ⟨rfl, h⟩
  | eagain => exact ⟨rfl, h⟩
  | error =>
    obtain ⟨_, hs⟩ := unmap_eq s
    obtain ⟨_, ht⟩ := unmap_eq t
    refine ⟨rfl, ?_⟩
    show Alike s.unmap.2 t.unmap.2
    rw [hs, ht]
    exact ⟨h.toHttpConn, h.writeBuf, h.writeIdx, h.realFile⟩

end Answering

namespace Serving

variable {s t : Serving} (fs : FileSystem)

/-! ### What `process_read` looks up -/

/-- The same is found for two objects, and a file that is found is the same. -/
structure Finds (l m : Lookup) : Prop where
  code : l.code = m.code
  path : l.path = m.path
  alike : Answering.Alike l.conn.toAnswering m.conn.toAnswering
  file : l.code = .fileRequest → Answering.SameFile l.conn.toAnswering m.conn.toAnswering

lemma finds_openFile (h : Answering.Alike s.toAnswering t.toAnswering) (path : Bytes) :
    Finds (s.openFile fs path) (t.openFile fs path) := by
  rw [openFile, openFile]
  cases fs.stat path with
  | none => exact ⟨rfl, rfl, h, nofun⟩
  | some st =>
    -- `stat` has filled `m_file_stat` in
    have halike : Answering.Alike { s.toAnswering with fileStat := ⟨st.size⟩ }
        { t.toAnswering with fileStat := ⟨st.size⟩ } := ⟨h.toHttpConn, h.writeBuf, h.writeIdx, h.realFile⟩
    dsimp only
    split
    · exact ⟨rfl, rfl, halike, nofun⟩
    · split
      · exact ⟨rfl, rfl, halike, nofun⟩
      · exact ⟨rfl, rfl, ⟨h.toHttpConn, h.writeBuf, h.writeIdx, h.realFile⟩, fun _ => ⟨rfl, rfl⟩⟩

lemma finds_doRequest (h : Answering.Alike s.toAnswering t.toAnswering) :
    Option.Rel Finds (s.doRequest fs) (t.doRequest fs) := by
  have hurl : s.url = t.url := congrArg HttpConn.url h.toHttpConn
  have hbuf : s.readBuf = t.readBuf := congrArg HttpConn.readBuf h.toHttpConn
  rw [doRequest, doRequest, hurl, hbuf]
  cases t.url with
  | none => exact .none
  | some url =>
    rw [Option.bind_eq_bind, Option.bind_eq_bind, Option.bind_some, Option.bind_some]
    cases strncpyAt (filenameLen - docRoot.length - 1) t.readBuf url with
    | none => exact .none
    | some name =>
      have hname : Answering.Alike (s.setRealFile name).toAnswering (t.setRealFile name).toAnswering := by
        refine ⟨h.toHttpConn, h.writeBuf, h.writeIdx, ?_⟩
        rw [setRealFile, setRealFile, h.realFile]
      rw [Option.bind_some, Option.bind_some]
      dsimp only
      rw [hname.realFile]
      cases textAt (t.setRealFile name).realFile 0 with
      | none => exact .none
      | some path => exact .some (finds_openFile fs hname path)

lemma finds_readRequest (h : Answering.Alike s.toAnswering t.toAnswering) :
    Option.Rel Finds (s.readRequest fs) (t.readRequest fs) := by
  rw [readRequest, readRequest, h.toHttpConn]
  cases hread : t.processRead with
  | none => exact .none
  | some call =>
    have hcall : Answering.Alike { s.toAnswering with toHttpConn := call.conn }
        { t.toAnswering with toHttpConn := call.conn } := ⟨rfl, h.writeBuf, h.writeIdx, h.realFile⟩
    rw [Option.bind_eq_bind, Option.bind_eq_bind, Option.bind_some, Option.bind_some]
    dsimp only
    cases hreturned : call.returned with
    | none => exact .none
    | some returned =>
      cases returned with
      | code code =>
        refine .some ⟨rfl, rfl, hcall, ?_⟩
        rintro rfl
        rcases processRead_code hread hreturned with hcode | hcode
        · cases hcode
        · cases hcode
      | doRequest =>
        exact finds_doRequest (s := { s with toHttpConn := call.conn })
          (t := { t with toHttpConn := call.conn }) fs hcall

/-! ### Calls -/

/-- What is seen of two calls is the same, and what they leave cannot be told apart. -/
def Agree (x y : Output × Serving) : Prop :=
  x.1 = y.1 ∧ Answering.Alike x.2.toAnswering y.2.toAnswering

lemma alike_answer {lengthLine : ℤ → Bytes} {l m : Lookup} (h : Finds l m) :
    (answer lengthLine l).output = (answer lengthLine m).output ∧
      Answering.Alike (answer lengthLine l).conn.toAnswering (answer lengthLine m).conn.toAnswering := by
  rw [answer, answer]
  by_cases hcode : m.code = .noRequest
  · rw [if_pos hcode, if_pos (h.code.trans hcode)]
    refine ⟨?_, h.alike⟩
    rw [Processed.output, Processed.output]
    dsimp only
    rw [h.code, h.path]
    rfl
  · rw [if_neg hcode, if_neg fun hl => hcode (h.code.symm.trans hl)]
    obtain ⟨hwritten, halike, hresponse⟩ := h.alike.processWrite lengthLine l.code h.file
    rw [h.code] at hwritten halike hresponse
    rw [h.code, Processed.output, Processed.output]
    generalize l.conn.processWrite lengthLine m.code = x at hwritten halike hresponse ⊢
    generalize m.conn.processWrite lengthLine m.code = y at hwritten halike hresponse ⊢
    obtain ⟨written, a⟩ := x
    obtain ⟨written', b⟩ := y
    obtain rfl : written = written' := hwritten
    dsimp only
    rw [h.code, h.path]
    cases written with
    | false => exact ⟨rfl, halike⟩
    | true =>
      refine ⟨?_, halike⟩
      show Output.processed m.code m.path (some true) (some a.response) =
        .processed m.code m.path (some true) (some b.response)
      rw [show a.response = b.response from hresponse rfl]

lemma agree_process (lengthLine : ℤ → Bytes) (h : Answering.Alike s.toAnswering t.toAnswering) :
    Option.Rel Agree (turn lengthLine (.process fs) s) (turn lengthLine (.process fs) t) := by
  have hlookup := finds_readRequest fs h
  rw [turn, turn, process, process]
  generalize s.readRequest fs = x at hlookup ⊢
  generalize t.readRequest fs = y at hlookup ⊢
  cases hlookup with
  | none => exact .none
  | some hfinds => exact .some (alike_answer hfinds)

lemma alike_writeLoop (rs : List Writev) : ∀ {a b : Answering}, Answering.Alike a b →
    (writeLoop a rs).2.1 = (writeLoop b rs).2.1 ∧
      Answering.Alike (writeLoop a rs).2.2 (writeLoop b rs).2.2 := by
  induction rs with
  | nil => exact fun h => ⟨rfl, h⟩
  | cons r rs ih =>
    intro a b h
    obtain ⟨hreturned, hconn⟩ := h.writeTurn r
    rw [writeLoop, writeLoop]
    generalize a.writeTurn r = x at hreturned hconn ⊢
    generalize b.writeTurn r = y at hreturned hconn ⊢
    obtain ⟨effects, returned, a⟩ := x
    obtain ⟨effects', returned', b⟩ := y
    obtain rfl : returned = returned' := hreturned
    cases returned with
    | none => exact ih hconn
    | some returned => exact ⟨rfl, hconn⟩

lemma alike_write (h : Answering.Alike s.toAnswering t.toAnswering) (rs : List Writev) :
    (s.write rs).2.1 = (t.write rs).2.1 ∧
      Answering.Alike (s.write rs).2.2.toAnswering (t.write rs).2.2.toAnswering := by
  rw [write, write, Answering.writeBegin, Answering.writeBegin, h.writeIdx]
  by_cases hzero : t.writeIdx = 0
  · rw [if_pos hzero, if_pos hzero]
    exact ⟨rfl, Answering.alike_init _ _⟩
  · rw [if_neg hzero, if_neg hzero]
    exact alike_writeLoop rs h

lemma agree_write (lengthLine : ℤ → Bytes) (h : Answering.Alike s.toAnswering t.toAnswering)
    (rs : List Writev) :
    Option.Rel Agree (turn lengthLine (.write rs) s) (turn lengthLine (.write rs) t) := by
  obtain ⟨hreturned, hconn⟩ := alike_write h rs
  rw [turn, turn]
  generalize s.write rs = x at hreturned hconn ⊢
  generalize t.write rs = y at hreturned hconn ⊢
  obtain ⟨effects, returned, s⟩ := x
  obtain ⟨effects', returned', t⟩ := y
  obtain rfl : returned = returned' := hreturned
  cases returned with
  | none => exact .none
  | some returned => exact .some ⟨rfl, hconn⟩

lemma agree_receive (lengthLine : ℤ → Bytes) (h : Answering.Alike s.toAnswering t.toAnswering)
    (chunk : Bytes) :
    Option.Rel Agree (turn lengthLine (.receive chunk) s) (turn lengthLine (.receive chunk) t) := by
  refine .some ⟨rfl, ?_, h.writeBuf, h.writeIdx, h.realFile⟩
  show s.toHttpConn.append (chunk.take (readBufferSize - s.readIdx)) =
    t.toHttpConn.append (chunk.take (readBufferSize - t.readIdx))
  rw [h.toHttpConn]

/-- Whatever two objects were used for, behind `init` the same is seen of them. -/
theorem observe_initConn (lengthLine : ℤ → Bytes) (ins : List Input) (s t : Serving) (fd fd' : ℕ) :
    observe (turn lengthLine) ins (s.initConn fd) = observe (turn lengthLine) ins (t.initConn fd') := by
  refine observe_congr (R := fun s t => Answering.Alike s.toAnswering t.toAnswering) ?_ ins
    (Answering.alike_init _ _)
  intro i s t h
  cases i with
  | receive chunk => exact agree_receive lengthLine h chunk
  | process fs => exact agree_process fs lengthLine h
  | write rs => exact agree_write lengthLine h rs

end Serving

end LinuxServer.HttpConn
