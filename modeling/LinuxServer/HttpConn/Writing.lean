import LinuxServer.HttpConn.Answering

/-!
# Writing an answer

A response goes out in the pieces that `writev` takes. What is to be written does not change between two
turns of the loop of `write`, so every turn begins at the front of the response again, and
the loop is left only by an error.
-/

namespace LinuxServer.HttpConn.Answering

open Core

/-- The bytes that an entry of `m_iv` stands for; `mem` is what is mapped at an address. -/
def bytes (mem : ℕ → Bytes) (s : Answering) (iov : Iovec) : Bytes :=
  match iov.base with
  | .writeBuf => s.writeBuf.take iov.len
  | .file none => []
  | .file (some address) => (mem address).take iov.len

/-- What `writev` is offered: the entries of `m_iv` one after the other. -/
def offered (mem : ℕ → Bytes) (s : Answering) : Bytes :=
  ((List.finRange 2).take s.ivCount).flatMap fun i => s.bytes mem (s.iv i)

/-- What the next call of `write` offers first. -/
def next (mem : ℕ → Bytes) (s : Answering) : Bytes := if s.writeIdx = 0 then [] else s.offered mem

/-- A response that `process_write` has prepared. -/
structure Prepared (s : Answering) : Prop where
  pos : 0 < s.writeIdx
  le : s.writeIdx ≤ s.writeBuf.length
  head : s.iv 0 = ⟨.writeBuf, s.writeIdx⟩
  rest : s.ivCount = 1 ∨ s.ivCount = 2 ∧ s.iv 1 = ⟨.file s.fileAddress, s.fileStat.size⟩

/-- `writev` takes something, and no more than it is offered. -/
def Writev.Valid (offered : ℕ) : Writev → Prop
  | .sent n => 0 < n ∧ n ≤ offered
  | .eagain => True
  | .error => True

/-- The bytes that the socket has accepted. -/
def Writev.accepted (offered : Bytes) : Writev → Bytes
  | .sent n => offered.take n
  | .eagain => []
  | .error => []

/-- A connection in the calls of `write`: whether it is in the loop, what the socket has accepted of the
response, and what the last call has returned. -/
structure Sending where
  conn : Answering
  inWrite : Bool
  sent : Bytes
  returned : Option Bool
  effects : List Effect

/-- Before the first call. -/
def Sending.start (s : Answering) : Sending := ⟨s, false, [], none, []⟩

inductive Event
  | write
  | writev (r : Writev)
  deriving DecidableEq

/-- `write` is called as long as it does not return false. -/
inductive Step (mem : ℕ → Bytes) : Sending → Event → Sending → Prop
  | write {t : Sending} {effects : List Effect} {returned : Option Bool} {conn : Answering} :
      t.inWrite = false → t.returned ≠ some false →
        t.conn.writeBegin = (effects, returned, conn) →
        Step mem t .write ⟨conn, returned.isNone, t.sent, returned, t.effects ++ effects⟩
  | writev {t : Sending} {r : Writev} {effects : List Effect} {returned : Option Bool}
      {conn : Answering} :
      t.inWrite = true → r.Valid (t.conn.offered mem).length →
        t.conn.writeTurn r = (effects, returned, conn) →
        Step mem t (.writev r) ⟨conn, returned.isNone, t.sent ++ r.accepted (t.conn.offered mem),
          returned, t.effects ++ effects⟩

/-- What a step is to do with the response `d`: what was accepted is the front of it, behind `EAGAIN` the
rest is still to be sent, and a call that returns with all of it accepted leaves nothing behind. -/
structure Resumes (mem : ℕ → Bytes) (d : Bytes) (t : Sending) (e : Event) (t' : Sending) : Prop where
  isPrefix : t'.sent <+: d
  again : e = .writev .eagain →
    t'.returned = some true ∧ t'.conn.next mem = d.drop t'.sent.length
  done : t'.inWrite = false → t'.sent = d → t'.conn.fileAddress = none ∧
    (t.conn.linger = true → t'.returned = some true ∧
      t'.conn.toHttpConn = HttpConn.init ∧ t'.conn.writeIdx = 0)

/-- What `writev` may return: it accepts bytes when none were accepted before, or bytes that happen to
stand at the front of the response too; `EAGAIN` comes when none were accepted; and another
error does not come when all were, on a connection that is to be kept. -/
def Tolerates (d : Bytes) (t : Sending) : Event → Prop
  | .write => True
  | .writev (.sent n) => t.sent.length + n ≤ d.length ∧ (d.drop t.sent.length).take n = d.take n
  | .writev .eagain => t.sent = []
  | .writev .error => ¬ (t.sent = d ∧ t.conn.linger = true)

variable {mem : ℕ → Bytes} {s : Answering} {t t' : Sending} {e : Event} {d : Bytes}

/-! ### The response -/

lemma Prepared.offered_ne (h : s.Prepared) : s.offered mem ≠ [] := by
  have hhead : s.bytes mem (s.iv 0) ≠ [] := by
    rw [bytes, h.head]
    intro hnil
    have hlength := congrArg List.length hnil
    rw [List.length_take, Nat.min_eq_left h.le] at hlength
    exact absurd hlength h.pos.ne'
  have hmem : (0 : Fin 2) ∈ (List.finRange 2).take s.ivCount := by
    rcases h.rest with hone | ⟨htwo, -⟩
    · rw [hone]
      decide
    · rw [htwo]
      decide
  intro hnil
  exact hhead (List.flatMap_eq_nil_iff.mp hnil 0 hmem)

lemma Prepared.next (h : s.Prepared) : s.next mem = s.offered mem := if_neg h.pos.ne'

/-- What `process_write` can rely on. -/
structure Room (s : Answering) : Prop where
  length : s.writeBuf.length = writeBufferSize
  le : s.writeIdx ≤ writeBufferSize

lemma length_vsnprintf {buf text : Bytes} {p size : ℕ} (h : p + size ≤ buf.length) :
    (vsnprintf buf p size text).length = buf.length := by
  rw [vsnprintf]
  split
  · rfl
  · simp only [List.length_append, List.length_take, List.length_drop, List.length_singleton]
    omega

lemma Room.addResponse (h : s.Room) (text : Bytes) :
    (s.addResponse text).2.Room ∧ s.writeIdx ≤ (s.addResponse text).2.writeIdx := by
  rw [Answering.addResponse]
  split
  · exact ⟨h, le_rfl⟩
  next hroom =>
    have hlength : (vsnprintf s.writeBuf s.writeIdx (writeBufferSize - 1 - s.writeIdx) text).length =
        writeBufferSize := by
      rw [length_vsnprintf (by rw [h.length]; omega), h.length]
    dsimp only
    split
    · exact ⟨⟨hlength, h.le⟩, le_rfl⟩
    next hfits => exact ⟨⟨hlength, by dsimp only; omega⟩, Nat.le_add_right _ _⟩

/-- A first text that fits. -/
lemma addResponse_pos {text : Bytes} (htext : text ≠ []) (hfits : text.length < writeBufferSize - 1) :
    0 < (s.addResponse text).2.writeIdx := by
  have hpos := List.length_pos_iff.mpr htext
  rw [addResponse]
  split
  next hfull => exact lt_of_lt_of_le (by decide) hfull
  next hroom =>
    dsimp only
    split
    · dsimp only
      omega
    · exact Nat.lt_of_lt_of_le hpos (Nat.le_add_left _ _)

lemma Room.addHeaders (h : s.Room) (lengthLine : ℤ → Bytes) (n : ℤ) :
    (s.addHeaders lengthLine n).Room ∧ s.writeIdx ≤ (s.addHeaders lengthLine n).writeIdx := by
  obtain ⟨hlength, hle⟩ := h.addResponse (lengthLine n)
  obtain ⟨hlinger, hle'⟩ := hlength.addResponse _
  obtain ⟨hblank, hle''⟩ := hlinger.addResponse _
  exact ⟨hblank, (hle.trans hle').trans hle''⟩

/-- `add_response` works on the write buffer alone. -/
lemma addResponse_eq (s : Answering) (text : Bytes) : ∃ buf idx,
    (s.addResponse text).2 = { s with writeBuf := buf, writeIdx := idx } := by
  rw [addResponse]
  split
  · exact ⟨s.writeBuf, s.writeIdx, rfl⟩
  · dsimp only
    split <;> exact ⟨_, _, rfl⟩

lemma addHeaders_eq (s : Answering) (lengthLine : ℤ → Bytes) (n : ℤ) : ∃ buf idx,
    s.addHeaders lengthLine n = { s with writeBuf := buf, writeIdx := idx } := by
  rw [addHeaders, addContentLength, addLinger, addBlankLine]
  obtain ⟨buf, idx, h⟩ := addResponse_eq s (lengthLine n)
  rw [h]
  obtain ⟨buf', idx', h'⟩ := addResponse_eq { s with writeBuf := buf, writeIdx := idx } _
  rw [h']
  exact addResponse_eq _ crlf

/-- An answer with a form is never sent. -/
lemma answerForm_fst (s : Answering) (lengthLine : ℤ → Bytes) (status : ℤ) (title form : Bytes) :
    (s.answerForm lengthLine status title form).1 = false := by
  rw [answerForm]
  dsimp only
  split
  · rfl
  · rfl

/-- Only a file that is not empty is sent. -/
lemma processWrite_fst (s : Answering) (lengthLine : ℤ → Bytes) (ret : HttpCode) :
    (s.processWrite lengthLine ret).1 = true ↔ ret = .fileRequest ∧ s.fileStat.size ≠ 0 := by
  have hform : ∀ status title form, ret ≠ .fileRequest →
      ((s.answerForm lengthLine status title form).1 = true ↔
        ret = .fileRequest ∧ s.fileStat.size ≠ 0) := by
    intro status title form hret
    rw [answerForm_fst]
    exact iff_of_false Bool.noConfusion fun h => hret h.1
  cases ret with
  | internalError =>
    rw [processWrite]
    exact hform _ _ _ (by decide)
  | badRequest =>
    rw [processWrite]
    exact hform _ _ _ (by decide)
  | noResource =>
    rw [processWrite]
    exact hform _ _ _ (by decide)
  | forbiddenRequest =>
    rw [processWrite]
    exact hform _ _ _ (by decide)
  | fileRequest =>
    obtain ⟨_, _, hstatus⟩ := addResponse_eq s
      (ascii "HTTP/1.1 ".toList ++ decimal 200 ++ ascii " ".toList ++ ok200Title ++ crlf)
    rw [processWrite, addStatusLine, hstatus]
    dsimp only
    split
    next hsize => exact iff_of_true rfl ⟨rfl, hsize⟩
    next hsize => exact iff_of_false Bool.noConfusion fun h => hsize h.2
  | noRequest => exact iff_of_false Bool.noConfusion fun h => HttpCode.noConfusion h.1
  | getRequest => exact iff_of_false Bool.noConfusion fun h => HttpCode.noConfusion h.1
  | closedConnect => exact iff_of_false Bool.noConfusion fun h => HttpCode.noConfusion h.1

lemma answerForm_eq (s : Answering) (lengthLine : ℤ → Bytes) (status : ℤ) (title form : Bytes) :
    ∃ buf idx iv count, (s.answerForm lengthLine status title form).2 =
      { s with writeBuf := buf, writeIdx := idx, iv := iv, ivCount := count } := by
  obtain ⟨_, _, hstatus⟩ := addResponse_eq s
    (ascii "HTTP/1.1 ".toList ++ decimal status ++ ascii " ".toList ++ title ++ crlf)
  obtain ⟨_, _, hheaders⟩ := addHeaders_eq (s.addStatusLine status title).2 lengthLine form.length
  obtain ⟨_, _, hcontent⟩ :=
    addResponse_eq ((s.addStatusLine status title).2.addHeaders lengthLine form.length) form
  rw [answerForm, addContent]
  dsimp only
  split
  · rw [hcontent, hheaders, addStatusLine, hstatus]
    exact ⟨_, _, _, _, rfl⟩
  · rw [hcontent, hheaders, addStatusLine, hstatus]
    exact ⟨_, _, _, _, rfl⟩

/-- `process_write` works on the write buffer and `m_iv` alone. -/
lemma processWrite_eq (s : Answering) (lengthLine : ℤ → Bytes) (ret : HttpCode) :
    ∃ buf idx iv count, (s.processWrite lengthLine ret).2 =
      { s with writeBuf := buf, writeIdx := idx, iv := iv, ivCount := count } := by
  cases ret with
  | internalError => exact answerForm_eq s lengthLine _ _ _
  | badRequest => exact answerForm_eq s lengthLine _ _ _
  | noResource => exact answerForm_eq s lengthLine _ _ _
  | forbiddenRequest => exact answerForm_eq s lengthLine _ _ _
  | fileRequest =>
    obtain ⟨_, _, hstatus⟩ := addResponse_eq s
      (ascii "HTTP/1.1 ".toList ++ decimal 200 ++ ascii " ".toList ++ ok200Title ++ crlf)
    rw [processWrite]
    dsimp only
    split
    · obtain ⟨_, _, hheaders⟩ := addHeaders_eq (s.addStatusLine 200 ok200Title).2 lengthLine
        (toInt (s.addStatusLine 200 ok200Title).2.fileStat.size)
      rw [hheaders, addStatusLine, hstatus]
      exact ⟨_, _, _, _, rfl⟩
    · obtain ⟨_, _, hheaders⟩ := addHeaders_eq (s.addStatusLine 200 ok200Title).2 lengthLine
        okString.length
      obtain ⟨_, _, hcontent⟩ := addResponse_eq
        ((s.addStatusLine 200 ok200Title).2.addHeaders lengthLine okString.length) okString
      rw [addContent, hcontent, hheaders, addStatusLine, hstatus]
      exact ⟨_, _, _, _, rfl⟩
  | noRequest => exact ⟨_, _, _, _, rfl⟩
  | getRequest => exact ⟨_, _, _, _, rfl⟩
  | closedConnect => exact ⟨_, _, _, _, rfl⟩

/-- The status line of `process_write` fits into an empty buffer. -/
lemma Room.addStatusLine (h : s.Room) {status : ℤ} {title : Bytes}
    (hfits : (decimal status).length + title.length < 100) :
    (s.addStatusLine status title).2.Room ∧ 0 < (s.addStatusLine status title).2.writeIdx := by
  refine ⟨(h.addResponse _).1, addResponse_pos ?_ ?_⟩
  · intro hnil
    have hlength := congrArg List.length hnil
    simp [crlf] at hlength
  · have hfront : (ascii "HTTP/1.1 ".toList).length = 9 := by decide
    have hblank : (ascii " ".toList).length = 1 := by decide
    have hcrlf : crlf.length = 2 := by decide
    have hsize : writeBufferSize = 2048 := rfl
    simp only [List.length_append, hfront, hblank, hcrlf]
    omega

/-- `process_write` has left `m_iv` as it was, or has prepared a response. -/
def Answered (s s' : Answering) : Prop := (s'.iv = s.iv ∧ s'.ivCount = s.ivCount) ∨ s'.Prepared

lemma Room.answerForm (h : s.Room) (lengthLine : ℤ → Bytes) {status : ℤ} {title : Bytes}
    (form : Bytes) (hfits : (decimal status).length + title.length < 100) :
    s.Answered (s.answerForm lengthLine status title form).2 := by
  obtain ⟨hstatus, hpos⟩ := h.addStatusLine hfits
  obtain ⟨hheaders, hle⟩ := hstatus.addHeaders lengthLine form.length
  obtain ⟨hcontent, hle'⟩ := hheaders.addResponse form
  obtain ⟨_, _, hstatusEq⟩ := addResponse_eq s
    (ascii "HTTP/1.1 ".toList ++ decimal status ++ ascii " ".toList ++ title ++ crlf)
  obtain ⟨_, _, hheadersEq⟩ := addHeaders_eq (s.addStatusLine status title).2 lengthLine form.length
  obtain ⟨_, _, hcontentEq⟩ :=
    addResponse_eq ((s.addStatusLine status title).2.addHeaders lengthLine form.length) form
  rw [Answering.answerForm, addContent]
  dsimp only
  split
  · left
    rw [hcontentEq, hheadersEq, Answering.addStatusLine, hstatusEq]
    exact ⟨rfl, rfl⟩
  · right
    refine ⟨(hpos.trans_le hle).trans_le hle', hcontent.le.trans_eq hcontent.length.symm, ?_, .inl rfl⟩
    dsimp only
    rw [Function.update_self]

theorem Room.processWrite (h : s.Room) (lengthLine : ℤ → Bytes) (ret : HttpCode) :
    s.Answered (s.processWrite lengthLine ret).2 := by
  cases ret with
  | internalError =>
    rw [Answering.processWrite]
    exact h.answerForm lengthLine _ (by decide)
  | badRequest =>
    rw [Answering.processWrite]
    exact h.answerForm lengthLine _ (by decide)
  | noResource =>
    rw [Answering.processWrite]
    exact h.answerForm lengthLine _ (by decide)
  | forbiddenRequest =>
    rw [Answering.processWrite]
    exact h.answerForm lengthLine _ (by decide)
  | fileRequest =>
    have hfits : (decimal 200).length + ok200Title.length < 100 := by decide
    obtain ⟨hstatus, hpos⟩ := h.addStatusLine hfits
    obtain ⟨_, _, hstatusEq⟩ := addResponse_eq s
      (ascii "HTTP/1.1 ".toList ++ decimal 200 ++ ascii " ".toList ++ ok200Title ++ crlf)
    rw [Answering.processWrite]
    dsimp only
    split
    · obtain ⟨hheaders, hle⟩ := hstatus.addHeaders lengthLine
        (toInt (s.addStatusLine 200 ok200Title).2.fileStat.size)
      right
      refine ⟨hpos.trans_le hle, hheaders.le.trans_eq hheaders.length.symm, ?_, .inr ⟨rfl, ?_⟩⟩
      · dsimp only
        rw [Function.update_of_ne (by decide), Function.update_self]
      · dsimp only
        obtain ⟨_, _, hheadersEq⟩ := addHeaders_eq (s.addStatusLine 200 ok200Title).2 lengthLine
          (toInt (s.addStatusLine 200 ok200Title).2.fileStat.size)
        rw [Function.update_self, hheadersEq]
    · left
      obtain ⟨_, _, hheadersEq⟩ := addHeaders_eq (s.addStatusLine 200 ok200Title).2 lengthLine
        okString.length
      obtain ⟨_, _, hcontentEq⟩ := addResponse_eq
        ((s.addStatusLine 200 ok200Title).2.addHeaders lengthLine okString.length) okString
      rw [addContent, hcontentEq, hheadersEq, Answering.addStatusLine, hstatusEq]
      exact ⟨rfl, rfl⟩
  | noRequest => exact .inl ⟨rfl, rfl⟩
  | getRequest => exact .inl ⟨rfl, rfl⟩
  | closedConnect => exact .inl ⟨rfl, rfl⟩

/-! ### The turns -/

/-- The front of the response is accepted behind `a`: it happens to go on like this. -/
lemma append_take_isPrefix {a : Bytes} {n : ℕ} (ha : a <+: d) (hn : n ≤ d.length) :
    a ++ d.take n <+: d ↔ a.length + n ≤ d.length ∧ (d.drop a.length).take n = d.take n := by
  obtain ⟨r, rfl⟩ := ha
  have hlength : ((a ++ r).take n).length = n := by rw [List.length_take, Nat.min_eq_left hn]
  rw [List.prefix_append_right_inj, List.drop_left, List.prefix_iff_eq_take, hlength,
    List.length_append]
  constructor
  · intro heq
    refine ⟨?_, heq.symm⟩
    have hle := congrArg List.length heq
    rw [hlength, List.length_take] at hle
    omega
  · exact fun h => h.2.symm

/-- The whole response is offered again, which is the rest when nothing was accepted. -/
lemma drop_eq_self {a : Bytes} (ha : a <+: d) : d = d.drop a.length ↔ a = [] := by
  constructor
  · intro heq
    have hlength := congrArg List.length heq
    have hle := ha.length_le
    rw [List.length_drop] at hlength
    exact List.length_eq_zero_iff.mp (by omega)
  · rintro rfl
    rfl

/-- The response of the start is still to be sent from its front, or a call has returned false. -/
def Offers (s : Answering) (mem : ℕ → Bytes) (t : Sending) : Prop :=
  (t.conn = s ∧ t.sent <+: s.offered mem ∧ t.returned ≠ some false) ∨
    (t.inWrite = false ∧ t.returned = some false)

/-- `unmap` works on the file alone. -/
lemma unmap_eq (s : Answering) : ∃ address, s.unmap.2 = { s with fileAddress := address } := by
  rw [unmap]
  split
  · exact ⟨none, rfl⟩
  · exact ⟨s.fileAddress, rfl⟩

lemma unmap_fileAddress (s : Answering) : s.unmap.2.fileAddress = none := by
  rw [unmap]
  split
  · rfl
  next hnone => exact hnone

/-- What a turn does to the response. -/
lemma writeTurn_resumes (h : s.Prepared) (hconn : t.conn = s) (hsent : t.sent <+: s.offered mem)
    {r : Writev} (hvalid : r.Valid (t.conn.offered mem).length)
    {effects : List Effect} {returned : Option Bool} {conn : Answering}
    (hturn : t.conn.writeTurn r = (effects, returned, conn)) :
    let t' : Sending := ⟨conn, returned.isNone, t.sent ++ r.accepted (t.conn.offered mem), returned,
      t.effects ++ effects⟩
    (Resumes mem (s.offered mem) t (.writev r) t' ↔ Tolerates (s.offered mem) t (.writev r)) ∧
      (Tolerates (s.offered mem) t (.writev r) → s.Offers mem t') := by
  intro t'
  subst hconn
  cases r with
  | sent n =>
    cases hturn
    have hfront := append_take_isPrefix hsent hvalid.2
    refine ⟨⟨fun hmeets => hfront.mp hmeets.isPrefix, fun hok => ?_⟩, fun hok => ?_⟩
    · exact ⟨hfront.mpr hok, nofun, nofun⟩
    · exact .inl ⟨rfl, hfront.mpr hok, nofun⟩
  | eagain =>
    cases hturn
    have hsame : t.sent ++ [] = t.sent := List.append_nil _
    have hfront : t.sent ++ [] <+: t.conn.offered mem := by rwa [hsame]
    refine ⟨⟨fun hmeets => ?_, fun hok => ?_⟩, fun _ => ?_⟩
    · have hnext := (hmeets.again rfl).2
      rw [show t'.conn = t.conn from rfl, h.next, show t'.sent = t.sent from hsame] at hnext
      exact (drop_eq_self hsent).mp hnext
    · have hnil : t'.sent = [] := hsame.trans hok
      refine ⟨?_, fun _ => ⟨rfl, ?_⟩, fun _ hall => ?_⟩
      · rw [hnil]
        exact List.nil_prefix
      · rw [hnil]
        exact h.next
      · exact absurd (hall.symm.trans hnil) h.offered_ne
    · exact .inl ⟨rfl, hfront, nofun⟩
  | error =>
    cases hturn
    have hsame : t.sent ++ [] = t.sent := List.append_nil _
    have hfront : t.sent ++ [] <+: t.conn.offered mem := by rwa [hsame]
    refine ⟨⟨fun hmeets hall => ?_, fun hok => ?_⟩, fun _ => .inr ⟨rfl, rfl⟩⟩
    · cases ((hmeets.done rfl (hsame.trans hall.1)).2 hall.2).1
    · refine ⟨hfront, nofun, fun _ hall => ⟨unmap_fileAddress _, fun hlinger => ?_⟩⟩
      exact absurd ⟨hsame.symm.trans hall, hlinger⟩ hok

/-- What a step does to the response. -/
lemma step_resumes (h : s.Prepared) (hoffers : s.Offers mem t) (hs : Step mem t e t') :
    (Resumes mem (s.offered mem) t e t' ↔ Tolerates (s.offered mem) t e) ∧
      (Tolerates (s.offered mem) t e → s.Offers mem t') := by
  cases hs with
  | write hout hreturned hbegin =>
    rcases hoffers with ⟨hconn, hsent, -⟩ | ⟨-, hfalse⟩
    · rw [writeBegin, hconn, if_neg h.pos.ne'] at hbegin
      cases hbegin
      exact ⟨iff_of_true ⟨hsent, nofun, nofun⟩ trivial, fun _ => .inl ⟨rfl, hsent, nofun⟩⟩
    · exact absurd hfalse hreturned
  | writev hin hvalid hturn =>
    rcases hoffers with ⟨hconn, hsent, -⟩ | ⟨hout, -⟩
    · exact writeTurn_resumes h hconn hsent hvalid hturn
    · cases hin.symm.trans hout

/-! ### Runs -/

/-- In a run on a response every step does what it is to do if and only if `writev` returns nothing that
the loop of `write` does not tolerate. -/
theorem run_resumes_iff {es : List Event} (h : s.Prepared) :
    Trace (fun t e t' => Step mem t e t' ∧ Resumes mem (s.offered mem) t e t') (.start s) es t ↔
      Trace (fun t e t' => Step mem t e t' ∧ Tolerates (s.offered mem) t e) (.start s) es t := by
  refine Trace.guard_iff (I := s.Offers mem) ?_ (.inl ⟨rfl, List.nil_prefix, nofun⟩)
  intro t e t' hoffers hs
  exact step_resumes h hoffers hs

/-- A connection whose request found a file of three bytes. -/
def found : Answering where
  toHttpConn := HttpConn.init
  writeBuf := List.replicate writeBufferSize 0
  writeIdx := 0
  realFile := List.replicate filenameLen 0
  fileAddress := some 4096
  fileStat := ⟨3⟩
  iv _ := ⟨.writeBuf, 0⟩
  ivCount := 0

/-- `Content-Length` as it is meant. -/
def lengthLine (n : ℤ) : Bytes := ascii "Content-Length: ".toList ++ decimal n ++ crlf

lemma prepared_found : (found.processWrite lengthLine .fileRequest).2.Prepared := by
  have hroom : found.Room := ⟨List.length_replicate, Nat.zero_le _⟩
  apply (hroom.processWrite lengthLine .fileRequest).resolve_left
  intro hsame
  cases hsame.2

/-- The file is mapped everywhere. -/
def abc (_ : ℕ) : Bytes := ascii "abc".toList

/-- `EAGAIN`, and then a byte is accepted. -/
theorem run_resumes_found : ∃ s t, found.processWrite lengthLine .fileRequest = (true, s) ∧
    Trace (fun t e t' => Step abc t e t' ∧ Resumes abc (s.offered abc) t e t')
      (.start s) [.write, .writev .eagain, .write, .writev (.sent 1)] t := by
  have hne : (found.processWrite lengthLine .fileRequest).2.offered abc ≠ [] := prepared_found.offered_ne
  have hpos := List.length_pos_iff.mpr hne
  have hrun : Trace (fun t e t' => Step abc t e t' ∧ Tolerates _ t e)
      (.start (found.processWrite lengthLine .fileRequest).2)
      [.write, .writev .eagain, .write, .writev (.sent 1)] _ :=
    .cons ⟨.write rfl nofun rfl, trivial⟩ (.cons ⟨.writev rfl trivial rfl, rfl⟩
      (.cons ⟨.write rfl nofun rfl, trivial⟩
        (.cons ⟨.writev rfl ⟨Nat.one_pos, hpos⟩ rfl, Nat.succ_le_of_lt hpos, rfl⟩ (.nil _))))
  exact ⟨_, _, rfl, (run_resumes_iff prepared_found).mpr hrun⟩

/-- All of a response is accepted at once: it is sent again. -/
theorem run_notResumes : ∃ (s : Answering) (n : ℕ) (t t' : Sending),
    found.processWrite lengthLine .fileRequest = (true, s) ∧
      Trace (Step abc) (.start s) [.write, .writev (.sent n)] t ∧ t.sent = s.offered abc ∧
      Step abc t (.writev (.sent n)) t' ∧ ¬ t'.sent <+: s.offered abc := by
  have hne : (found.processWrite lengthLine .fileRequest).2.offered abc ≠ [] := prepared_found.offered_ne
  have hpos := List.length_pos_iff.mpr hne
  have hrun : Trace (Step abc) (.start (found.processWrite lengthLine .fileRequest).2)
      [.write, .writev (.sent _)] _ :=
    .cons (.write rfl nofun rfl) (.cons (.writev rfl ⟨hpos, le_rfl⟩ rfl) (.nil _))
  refine ⟨_, _, _, _, rfl, hrun, List.take_length, .writev rfl ⟨hpos, le_rfl⟩ rfl, ?_⟩
  intro hfront
  have hle := hfront.length_le
  simp only [Writev.accepted, List.length_append, List.length_take, Sending.start, List.length_nil,
    min_self, zero_add] at hle
  exact absurd (Nat.lt_add_of_pos_left hpos) (not_lt.mpr hle)

end LinuxServer.HttpConn.Answering
