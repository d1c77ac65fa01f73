import LinuxServer.HttpConn.RealFile

/-!
# When a request is answered

A call of `process_read` that returns a value either waits for more, or comes to an answer: when it
refuses what it takes for a request line, and when what it takes for a header line is empty. Which of
them it is can be read off the read buffer before the call, since `parse_line` has overwritten nothing.

When the buffer is full there may be no NUL behind the line. The parsers can come to a result there all
the same, and it is the one that they come to with a NUL behind the buffer.
-/

namespace LinuxServer.HttpConn

open Core
open ParseHttp (get http11 http slash word_of_http11)

/-- The URL does not begin with `http://`, and there is a slash behind its seventh byte; for a
shorter URL this means the version behind it. -/
def Parts.Accepted (q : Parts) : Prop :=
  caseEqN 7 q.url http = false ∧ slash ∈ behind q.url (q.gap.drop 1 ++ q.version)

/-- What stands at `m_start_line` is refused as a request line, or ends the headers. -/
def Answers (s : HttpConn) : Prop :=
  match s.checkState with
  | .requestLine => ∀ q : Parts, q.Of (cut (s.readBuf.drop s.startLine)) → ¬ q.Accepted
  | .header => s.readBuf[s.startLine]? = some 0
  | .content => False

/-- With a NUL behind the read buffer. -/
def pad (s : HttpConn) : HttpConn := { s with readBuf := s.readBuf ++ [0] }

variable {s s' : HttpConn} {text url version p : ℕ} {t : Bytes} {code : HttpCode} {call : Call}

/-! ### The text of a line -/

lemma Parts.Of.accepted_iff {q : Parts} (h : q.Of t) (text : ℕ) :
    q.Accepted ↔ linePath text t ≠ none := by
  have hskip : (q.gap.drop 1 ++ q.version).dropWhile isBlank = q.version := by
    rw [List.dropWhile_append_of_pos fun c hc => h.gap.2 c (List.mem_of_mem_drop hc)]
    exact (word_of_http11 h.version).unblank.dropWhile
  rw [h.linePath_eq, versionPath, hskip, Parts.Accepted]
  by_cases hhttp : caseEqN 7 q.url http = false
  · rw [if_pos ⟨h.version, hhttp⟩, and_iff_right hhttp, ne_eq, Option.map_eq_none_iff, strchr,
      List.findIdx?_eq_none_iff]
    simp
  · rw [if_neg fun hand => hhttp hand.2]
    exact iff_of_false (fun hand => hhttp hand.1) (not_not.mpr rfl)

lemma linePath_eq_none_iff (text : ℕ) :
    linePath text t = none ↔ ∀ q : Parts, q.Of t → ¬ q.Accepted := by
  constructor
  · intro hnone q hq haccepted
    exact (hq.accepted_iff text).mp haccepted hnone
  · intro hall
    by_contra hne
    obtain ⟨q, hq⟩ := exists_parts hne
    exact hall q hq ((hq.accepted_iff text).mpr hne)

/-! ### A NUL behind the buffer -/

lemma putNul_pad (h : s.putNul p = some s') : s.pad.putNul p = some s'.pad := by
  obtain ⟨readBuf, hbuf, rfl⟩ := Option.map_eq_some_iff.mp h
  rw [putNul, pad, nulAt_longer [0] hbuf]
  rfl

lemma urlPath_pad {path : Option ℕ} (h : s.urlPath url = some path) :
    s.pad.urlPath url = some path := by
  simp only [urlPath, Option.bind_eq_bind, Option.bind_eq_some_iff] at h
  obtain ⟨same, hsame, h⟩ := h
  rw [urlPath, pad, caseEqNAt_longer [0] hsame, Option.bind_eq_bind, Option.bind_some]
  split at h
  next hno =>
    obtain ⟨j, hj, h⟩ := Option.bind_eq_some_iff.mp h
    rw [if_pos hno, strchrAt, findAt_longer [0] hj]
    exact h
  next hyes =>
    rw [if_neg hyes]
    exact h

lemma parseVersion_pad (h : s.parseVersion url version = some (code, s')) :
    s.pad.parseVersion url version = some (code, s'.pad) := by
  simp only [parseVersion, Option.bind_eq_bind, Option.bind_eq_some_iff] at h
  obtain ⟨n, hn, same, hsame, h⟩ := h
  rw [parseVersion, pad, strspnAt_longer [0] hn, Option.bind_eq_bind, Option.bind_some]
  dsimp only
  rw [caseEqAt_longer [0] hsame, Option.bind_eq_bind, Option.bind_some]
  split at h
  next hno =>
    cases h
    rw [if_pos hno]
    rfl
  next hyes =>
    obtain ⟨path, hpath, h⟩ := Option.bind_eq_some_iff.mp h
    have hpad := urlPath_pad hpath
    rw [if_neg hyes]
    rw [pad] at hpad
    dsimp only at hpad
    rw [hpad, Option.bind_eq_bind, Option.bind_some]
    cases path with
    | none =>
      cases h
      rfl
    | some p =>
      obtain ⟨c, hc, h⟩ := Option.bind_eq_some_iff.mp h
      dsimp only
      rw [getElem?_longer [0] hc, Option.bind_eq_bind, Option.bind_some]
      split at h
      next hslash =>
        cases h
        rw [if_pos hslash]
        rfl
      next hslash =>
        cases h
        rw [if_neg hslash]
        rfl

lemma parseUrl_pad (h : s.parseUrl url = some (code, s')) :
    s.pad.parseUrl url = some (code, s'.pad) := by
  simp only [parseUrl, Option.bind_eq_bind, Option.bind_eq_some_iff] at h
  obtain ⟨n, hn, found, hfound, h⟩ := h
  rw [parseUrl, pad, strspnAt_longer [0] hn, Option.bind_eq_bind, Option.bind_some]
  dsimp only
  rw [strpbrkAt, findAt_longer [0] hfound, Option.bind_eq_bind, Option.bind_some]
  cases found with
  | none =>
    cases h
    rfl
  | some j =>
    obtain ⟨s₁, hput, h⟩ := Option.bind_eq_some_iff.mp h
    have hpad := putNul_pad hput
    rw [pad] at hpad
    dsimp only at hpad ⊢
    rw [hpad, Option.bind_eq_bind, Option.bind_some]
    exact parseVersion_pad h

lemma parseRequestLine_pad (h : s.parseRequestLine text = some (code, s')) :
    s.pad.parseRequestLine text = some (code, s'.pad) := by
  simp only [parseRequestLine, Option.bind_eq_bind, Option.bind_eq_some_iff] at h
  obtain ⟨found, hfound, h⟩ := h
  rw [parseRequestLine, pad, strpbrkAt, findAt_longer [0] hfound, Option.bind_eq_bind,
    Option.bind_some]
  cases found with
  | none =>
    cases h
    rfl
  | some i =>
    obtain ⟨s₁, hput, h⟩ := Option.bind_eq_some_iff.mp h
    obtain ⟨same, hsame, h⟩ := Option.bind_eq_some_iff.mp h
    have hpad := putNul_pad hput
    rw [pad] at hpad
    dsimp only at hpad ⊢
    rw [hpad, Option.bind_eq_bind, Option.bind_some, pad]
    dsimp only
    rw [caseEqAt_longer [0] hsame, Option.bind_eq_bind, Option.bind_some]
    split at h
    next hno =>
      cases h
      rw [if_pos hno]
      rfl
    next hyes =>
      rw [if_neg hyes]
      exact parseUrl_pad h

/-- Whether a line is refused can be seen from its text, which ends with the buffer if not before. -/
lemma parseRequestLine_refuses_iff (h : s.parseRequestLine text = some (code, s')) :
    code = .badRequest ↔ ∀ q : Parts, q.Of (cut (s.readBuf.drop text)) → ¬ q.Accepted := by
  have htext : textAt s.pad.readBuf text = some (cut (s.readBuf.drop text)) := by
    obtain ⟨found, hfound, -⟩ := Option.bind_eq_some_iff.mp h
    obtain ⟨i, hi, -⟩ := Option.map_eq_some_iff.mp hfound
    rw [textAt, pad, (drop_longer [0] hi).1, cstr_append]
  obtain ⟨code', s₁, h₁, hparsed⟩ := parseRequestLine_spec htext
  cases (parseRequestLine_pad h).symm.trans h₁
  have hcode : code = .badRequest ↔ code ≠ .noRequest := by
    rcases (parseRequestLine_cases h).2 with ⟨rfl, -⟩ | ⟨rfl, -⟩
    · exact iff_of_true rfl (by simp)
    · exact iff_of_false (by simp) (not_not.mpr rfl)
  rw [hcode, ← linePath_eq_none_iff text, ne_eq, hparsed.accepts, not_not]

/-- Without a content, it is the empty line that ends the headers. -/
lemma parseHeaders_ends_iff (hs : s.contentLength = 0) (h : s.parseHeaders text = some (code, s')) :
    code = .getRequest ↔ s.readBuf[text]? = some 0 := by
  obtain ⟨c, hc, h⟩ := Option.bind_eq_some_iff.mp h
  rw [hc]
  split at h
  next hzero =>
    rw [if_neg (not_not.mpr hs)] at h
    cases h
    exact iff_of_true rfl (congrArg some hzero)
  next hne =>
    refine iff_of_false ?_ fun heq => hne (Option.some.inj heq)
    rintro rfl
    obtain ⟨isConnection, -, h⟩ := Option.bind_eq_some_iff.mp h
    split at h
    next =>
      obtain ⟨n, -, h⟩ := Option.bind_eq_some_iff.mp h
      obtain ⟨keep, -, h⟩ := Option.bind_eq_some_iff.mp h
      cases h
    next =>
      obtain ⟨isHost, -, h⟩ := Option.bind_eq_some_iff.mp h
      split at h
      next =>
        obtain ⟨n, -, h⟩ := Option.bind_eq_some_iff.mp h
        cases h
      next =>
        obtain ⟨t, -, h⟩ := Option.bind_eq_some_iff.mp h
        cases h

/-! ### A call of `process_read` -/

/-- A call that returns a value takes what stands at `m_start_line` for a line. -/
lemma processRead_handLine (hs : s.checkState ≠ .content) {returned : Returned}
    (hcall : s.processRead = some call) (hreturned : call.returned = some returned) :
    ∃ checkedIdx ret, handLine { s with checkedIdx := checkedIdx } = some (ret, call.conn) ∧
      returned = ret.getD (.code .noRequest) := by
  obtain ⟨status, readBuf, checkedIdx, hline, ⟨-, rfl⟩ | ⟨hne, ret, s', hhand, rfl⟩⟩ :=
    processRead_cases hs hcall
  · cases hreturned
  · obtain rfl := parseLine_same hne hline
    exact ⟨checkedIdx, ret, hhand, (Option.some.inj hreturned).symm⟩

/-- What a call returns, and the URL that it leaves when it is the one of `do_request`. -/
lemma Sound.returned (h : s.Sound) {returned : Returned} (hcall : s.processRead = some call)
    (hreturned : call.returned = some returned) :
    (returned ≠ .code .noRequest ↔ s.Answers) ∧
      (returned = .doRequest ↔ s.Answers ∧ s.checkState = .header) ∧
      (returned = .doRequest → call.conn.urlText = s.urlText) := by
  obtain ⟨checkedIdx, ret, hhand, rfl⟩ := processRead_handLine h.noContent.checkState hcall hreturned
  rw [handLine] at hhand
  dsimp only at hhand
  rw [Answers]
  split at hhand
  next hstate =>
    obtain ⟨⟨code, s₁⟩, hparse, hret⟩ := Option.bind_eq_some_iff.mp hhand
    have hrefuses := parseRequestLine_refuses_iff hparse
    dsimp only at hret hrefuses
    rw [hstate, ← hrefuses]
    cases hret
    by_cases hcode : code = .badRequest
    · simp [hcode]
    · simp [hcode]
  next hstate =>
    obtain ⟨⟨code, s₁⟩, hparse, hret⟩ := Option.bind_eq_some_iff.mp hhand
    have hends := parseHeaders_ends_iff
      (s := { s with checkedIdx := checkedIdx, startLine := checkedIdx }) h.noContent.contentLength
      hparse
    obtain ⟨hbuf, hurl⟩ := parseHeaders_same hparse
    have hcode : code ≠ .badRequest := by
      rcases (parseHeaders_cases hparse).2 with ⟨hcode | hcode, -⟩ | ⟨-, hcode, -⟩ <;> rw [hcode] <;>
        decide
    dsimp only at hret hends hbuf hurl
    rw [if_neg hcode] at hret
    rw [hstate, ← hends]
    cases hret
    have htext : call.conn.urlText = s.urlText := by rw [urlText, urlText, hbuf, hurl]
    by_cases hget : code = .getRequest
    · simp [hget, htext]
    · simp [hget]
  next hstate => exact absurd hstate h.noContent.checkState

namespace Serving

variable {s : Serving} {fs : FileSystem} {l : Lookup}

/-- A file is mapped for the line that ends the headers, if there is one that all may read. -/
def FindsFile (s : Serving) (fs : FileSystem) : Prop :=
  s.checkState = .header ∧ fs.Serves (docRoot ++ s.urlText.take urlRoom)

lemma openFile_answers (s : Serving) (fs : FileSystem) (path : Bytes) :
    (s.openFile fs path).code ≠ .noRequest ∧
      ((s.openFile fs path).mapped ≠ none ↔ (s.openFile fs path).code = .fileRequest) := by
  rw [openFile]
  cases fs.stat path with
  | none => exact ⟨by simp, iff_of_false (not_not.mpr rfl) (by simp)⟩
  | some st =>
    dsimp only
    split
    · exact ⟨by simp, iff_of_false (not_not.mpr rfl) (by simp)⟩
    · split
      · exact ⟨by simp, iff_of_false (not_not.mpr rfl) (by simp)⟩
      · exact ⟨by simp, iff_of_true (by simp) rfl⟩

/-- When a request is answered, and when a file is mapped for the answer. -/
theorem Ready.readRequest_iff (h : s.Ready) (hread : s.readRequest fs = some l) :
    (l.code ≠ .noRequest ↔ s.toHttpConn.Answers) ∧
      (s.toHttpConn.Answers → (l.mapped ≠ none ↔ s.FindsFile fs)) := by
  obtain ⟨call, hcall, hread⟩ := Option.bind_eq_some_iff.mp hread
  obtain ⟨returned, hreturned, hread⟩ := Option.bind_eq_some_iff.mp hread
  obtain ⟨hanswers, hheader, htext⟩ := h.sound.returned hcall hreturned
  cases returned with
  | code code =>
    cases hread
    refine ⟨by rw [← hanswers]; simp, fun hans => iff_of_false (not_not.mpr rfl) fun hfinds => ?_⟩
    cases hheader.mpr ⟨hans, hfinds.1⟩
  | doRequest =>
    obtain ⟨hans, hstate⟩ := hheader.mp rfl
    obtain ⟨name, -, rfl⟩ := doRequest_spec (s := { s with toHttpConn := call.conn }) h.file hread
    have hurl : urlText call.conn = s.urlText := htext rfl
    have hopen := openFile_answers (setRealFile { s with toHttpConn := call.conn } name) fs
      (docRoot ++ call.conn.urlText.take urlRoom)
    refine ⟨iff_of_true hopen.1 hans, fun _ => ?_⟩
    rw [hopen.2, openFile_code, FindsFile, and_iff_right hstate, hurl]

end Serving

end LinuxServer.HttpConn
