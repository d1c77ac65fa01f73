import LinuxServer.HttpConn.Basic

/-!
# `process_read` and the loop of `parse_content`

`specProcessRead` is the loop of `parse_content` of `parse_http.cpp` with the line parsers of
`http_conn`: lines are taken while `parse_line` finds one, and handed to the parser of the state.
The loop of `process_read` has the comparison the other way round: it is entered when `parse_line`
finds none, with the bytes of an unfinished or malformed line, and when there is a line the function
is left without a value. So no call does what `specProcessRead` does.
-/

namespace LinuxServer.HttpConn

open Core
open ParseHttp (slash)

/-- The loop of `parse_content`, with the parsers of `http_conn`. -/
def contentLoop : ℕ → HttpConn → Option Call
  | 0, _ => none
  | fuel + 1, s => do
    let (status, readBuf, checkedIdx) ← parseLine s.readBuf s.checkedIdx s.readIdx
    let s := { s with readBuf := readBuf, checkedIdx := checkedIdx }
    match status with
    | .lineOpen => some ⟨some (.code .noRequest), [], s⟩
    | .lineBad => some ⟨some (.code .badRequest), [], s⟩
    | .lineOk =>
      if s.checkState = .content then
        some ⟨some (.code .internalError), [], { s with startLine := s.checkedIdx }⟩
      else do
        match ← s.handLine with
        | (some ret, s') => some ⟨some ret, [(s.checkState, s.startLine)], s'⟩
        | (none, s') => do
          let call ← contentLoop fuel s'
          some { call with handed := (s.checkState, s.startLine) :: call.handed }

/-- What a call of `process_read` is to do: every turn takes a line, so there are at most as many as
bytes. -/
def specProcessRead (s : HttpConn) : Option Call := contentLoop (s.readIdx - s.checkedIdx + 1) s

/-- The call of `process_read` returns what it is to return, after handing over the same lines. -/
def Agrees (s : HttpConn) : Prop :=
  ∃ call spec, s.processRead = some call ∧ s.specProcessRead = some spec ∧
    call.returned = spec.returned ∧ call.handed = spec.handed

variable {s s' : HttpConn} {call : Call} {code : HttpCode} {ret : Option Returned} {text url : ℕ}
  {version checkedIdx : ℕ} {readBuf : Bytes} {es : List Event}

/-! ### What the line parsers do -/

/-- What no line parser changes. -/
structure Keeps (s s' : HttpConn) : Prop where
  readIdx : s'.readIdx = s.readIdx
  checkedIdx : s'.checkedIdx = s.checkedIdx
  startLine : s'.startLine = s.startLine
  contentLength : s'.contentLength = s.contentLength

/-- The next state of a request line. -/
def RequestLineState (s : HttpConn) (code : HttpCode) (s' : HttpConn) : Prop :=
  (code = .badRequest ∧ s'.checkState = s.checkState) ∨ (code = .noRequest ∧ s'.checkState = .header)

/-- The next state of a header line. -/
def HeaderState (s : HttpConn) (code : HttpCode) (s' : HttpConn) : Prop :=
  ((code = .noRequest ∨ code = .getRequest) ∧ s'.checkState = s.checkState) ∨
    (s.contentLength ≠ 0 ∧ code = .noRequest ∧ s'.checkState = .content)

/-- A request line is refused, or its URL begins with a slash and the headers are next. -/
def RequestLineExit (s : HttpConn) (code : HttpCode) (s' : HttpConn) : Prop :=
  (code = .badRequest ∧ s'.checkState = s.checkState) ∨
    (code = .noRequest ∧ s'.checkState = .header) ∧
      ∃ p, s'.url = some p ∧ s'.readBuf[p]? = some slash

lemma putNul_eq_some {p : ℕ} :
    s.putNul p = some s' ↔ p < s.readBuf.length ∧ s' = { s with readBuf := s.readBuf.set p 0 } := by
  rw [putNul, Option.map_eq_some_iff]
  constructor
  · rintro ⟨readBuf, hbuf, rfl⟩
    obtain ⟨hlt, rfl⟩ := nulAt_eq_some.mp hbuf
    exact ⟨hlt, rfl⟩
  · rintro ⟨hlt, rfl⟩
    exact ⟨_, nulAt_of_lt hlt, rfl⟩

lemma parseVersion_exits (h : s.parseVersion url version = some (code, s')) :
    s.Keeps s' ∧ s.RequestLineExit code s' := by
  simp only [parseVersion, Option.bind_eq_bind, Option.bind_eq_some_iff] at h
  obtain ⟨n, -, same, -, h⟩ := h
  split at h
  next =>
    cases h
    exact ⟨⟨rfl, rfl, rfl, rfl⟩, .inl ⟨rfl, rfl⟩⟩
  next =>
    obtain ⟨path, -, h⟩ := Option.bind_eq_some_iff.mp h
    cases path with
    | none =>
      cases h
      exact ⟨⟨rfl, rfl, rfl, rfl⟩, .inl ⟨rfl, rfl⟩⟩
    | some p =>
      obtain ⟨c, hc, h⟩ := Option.bind_eq_some_iff.mp h
      split at h
      next hslash =>
        cases h
        exact ⟨⟨rfl, rfl, rfl, rfl⟩, .inr ⟨⟨rfl, rfl⟩, p, rfl, hslash ▸ hc⟩⟩
      next =>
        cases h
        exact ⟨⟨rfl, rfl, rfl, rfl⟩, .inl ⟨rfl, rfl⟩⟩

lemma parseUrl_exits (h : s.parseUrl url = some (code, s')) :
    s.Keeps s' ∧ s.RequestLineExit code s' := by
  simp only [parseUrl, Option.bind_eq_bind, Option.bind_eq_some_iff] at h
  obtain ⟨n, -, found, -, h⟩ := h
  cases found with
  | none =>
    cases h
    exact ⟨⟨rfl, rfl, rfl, rfl⟩, .inl ⟨rfl, rfl⟩⟩
  | some j =>
    obtain ⟨s₁, hput, h⟩ := Option.bind_eq_some_iff.mp h
    obtain ⟨-, rfl⟩ := putNul_eq_some.mp hput
    obtain ⟨hkeeps, hexit⟩ := parseVersion_exits h
    exact ⟨⟨hkeeps.1, hkeeps.2, hkeeps.3, hkeeps.4⟩, hexit⟩

lemma parseRequestLine_exits (h : s.parseRequestLine text = some (code, s')) :
    s.Keeps s' ∧ s.RequestLineExit code s' := by
  simp only [parseRequestLine, Option.bind_eq_bind, Option.bind_eq_some_iff] at h
  obtain ⟨found, -, h⟩ := h
  cases found with
  | none =>
    cases h
    exact ⟨⟨rfl, rfl, rfl, rfl⟩, .inl ⟨rfl, rfl⟩⟩
  | some i =>
    obtain ⟨s₁, hput, h⟩ := Option.bind_eq_some_iff.mp h
    obtain ⟨-, rfl⟩ := putNul_eq_some.mp hput
    obtain ⟨same, -, h⟩ := Option.bind_eq_some_iff.mp h
    split at h
    next =>
      cases h
      exact ⟨⟨rfl, rfl, rfl, rfl⟩, .inl ⟨rfl, rfl⟩⟩
    next =>
      obtain ⟨hkeeps, hexit⟩ := parseUrl_exits h
      exact ⟨⟨hkeeps.1, hkeeps.2, hkeeps.3, hkeeps.4⟩, hexit⟩

lemma parseRequestLine_cases (h : s.parseRequestLine text = some (code, s')) :
    s.Keeps s' ∧ s.RequestLineState code s' := by
  obtain ⟨hkeeps, hbad | ⟨hgood, -⟩⟩ := parseRequestLine_exits h
  · exact ⟨hkeeps, .inl hbad⟩
  · exact ⟨hkeeps, .inr hgood⟩

/-- A header line changes the state, or it may change `m_linger` and `m_host`. -/
lemma parseHeaders_exits (h : s.parseHeaders text = some (code, s')) :
    (s.contentLength ≠ 0 ∧ code = .noRequest ∧ s' = { s with checkState := .content }) ∨
      (code = .noRequest ∨ code = .getRequest) ∧
        ∃ linger host, s' = { s with linger := linger, host := host } := by
  simp only [parseHeaders, Option.bind_eq_bind, Option.bind_eq_some_iff] at h
  obtain ⟨c, -, h⟩ := h
  split at h
  next =>
    split at h
    next hlength =>
      cases h
      exact .inl ⟨hlength, rfl, rfl⟩
    next =>
      cases h
      exact .inr ⟨.inr rfl, s.linger, s.host, rfl⟩
  next =>
    obtain ⟨isConnection, -, h⟩ := Option.bind_eq_some_iff.mp h
    split at h
    next =>
      obtain ⟨n, -, h⟩ := Option.bind_eq_some_iff.mp h
      obtain ⟨keep, -, h⟩ := Option.bind_eq_some_iff.mp h
      cases h
      cases keep with
      | true => exact .inr ⟨.inl rfl, true, s.host, rfl⟩
      | false => exact .inr ⟨.inl rfl, s.linger, s.host, rfl⟩
    next =>
      obtain ⟨isHost, -, h⟩ := Option.bind_eq_some_iff.mp h
      split at h
      next =>
        obtain ⟨n, -, h⟩ := Option.bind_eq_some_iff.mp h
        cases h
        exact .inr ⟨.inl rfl, s.linger, _, rfl⟩
      next =>
        obtain ⟨t, -, h⟩ := Option.bind_eq_some_iff.mp h
        cases h
        exact .inr ⟨.inl rfl, s.linger, s.host, rfl⟩

lemma parseHeaders_cases (h : s.parseHeaders text = some (code, s')) :
    s.Keeps s' ∧ s.HeaderState code s' := by
  rcases parseHeaders_exits h with ⟨hlength, rfl, rfl⟩ | ⟨hcode, linger, host, rfl⟩
  · exact ⟨⟨rfl, rfl, rfl, rfl⟩, .inr ⟨hlength, rfl, rfl⟩⟩
  · exact ⟨⟨rfl, rfl, rfl, rfl⟩, .inl ⟨hcode, rfl⟩⟩

/-! ### Without a content -/

/-- No content is expected. -/
structure NoContent (s : HttpConn) : Prop where
  checkState : s.checkState ≠ .content
  contentLength : s.contentLength = 0

lemma RequestLineState.noContent (h : s.RequestLineState code s')
    (hlength : s'.contentLength = s.contentLength) (hs : s.NoContent) : s'.NoContent := by
  refine ⟨?_, hlength.trans hs.contentLength⟩
  rcases h with ⟨-, h⟩ | ⟨-, h⟩ <;> rw [h]
  · exact hs.checkState
  · decide

lemma HeaderState.noContent (h : s.HeaderState code s')
    (hlength : s'.contentLength = s.contentLength) (hs : s.NoContent) : s'.NoContent := by
  refine ⟨?_, hlength.trans hs.contentLength⟩
  rcases h with ⟨-, h⟩ | ⟨hne, -⟩
  · rw [h]
    exact hs.checkState
  · exact absurd hs.contentLength hne

/-- What a turn can do when no content is expected. -/
lemma handLine_cases (hs : s.checkState ≠ .content) (h : s.handLine = some (ret, s')) :
    Keeps { s with startLine := s.checkedIdx } s' ∧
      ∃ code, s.RequestLineState code s' ∨ s.HeaderState code s' := by
  rw [handLine] at h
  dsimp only at h
  split at h
  next =>
    obtain ⟨⟨code, s₁⟩, h₁, h⟩ := Option.bind_eq_some_iff.mp h
    cases h
    obtain ⟨hkeeps, hstate⟩ := parseRequestLine_cases h₁
    exact ⟨hkeeps, code, .inl hstate⟩
  next =>
    obtain ⟨⟨code, s₁⟩, h₁, h⟩ := Option.bind_eq_some_iff.mp h
    cases h
    obtain ⟨hkeeps, hstate⟩ := parseHeaders_cases h₁
    exact ⟨hkeeps, code, .inr hstate⟩
  next hcontent => exact absurd hcontent hs

lemma handLine_noContent (h : s.handLine = some (ret, s')) (hs : s.NoContent) : s'.NoContent := by
  obtain ⟨hkeeps, code, hstate | hstate⟩ := handLine_cases hs.checkState h
  · exact hstate.noContent hkeeps.contentLength hs
  · exact hstate.noContent hkeeps.contentLength hs

/-! ### A call -/

/-- Without a content, the loop is entered unless `parse_line` finds a line. -/
lemma loopCondition_eq (hs : s.checkState ≠ .content) {again : Bool}
    (h : s.loopCondition .lineOk = some (again, s')) :
    ∃ status, parseLine s.readBuf s.checkedIdx s.readIdx = some (status, s'.readBuf, s'.checkedIdx) ∧
      s' = { s with readBuf := s'.readBuf, checkedIdx := s'.checkedIdx } ∧
      (again = true ↔ status ≠ .lineOk) := by
  rw [loopCondition, if_neg (fun hand => hs hand.1)] at h
  obtain ⟨⟨status, readBuf, checkedIdx⟩, hline, h⟩ := Option.bind_eq_some_iff.mp h
  cases h
  refine ⟨status, hline, rfl, ?_⟩
  cases status <;> decide

/-- A call returns no value when there is a line, and hands over what is no line otherwise. -/
lemma processRead_cases (hs : s.checkState ≠ .content) (h : s.processRead = some call) :
    ∃ status readBuf checkedIdx,
      parseLine s.readBuf s.checkedIdx s.readIdx = some (status, readBuf, checkedIdx) ∧
      ((status = .lineOk ∧ call = ⟨none, [], { s with readBuf, checkedIdx }⟩) ∨
        (status ≠ .lineOk ∧ ∃ ret s', handLine { s with readBuf, checkedIdx } = some (ret, s') ∧
          call = ⟨some (ret.getD (.code .noRequest)), [(s.checkState, s.startLine)], s'⟩)) := by
  obtain ⟨⟨again, s₁⟩, hcond, h⟩ := Option.bind_eq_some_iff.mp h
  obtain ⟨status, hline, hs₁, hagain⟩ := loopCondition_eq hs hcond
  refine ⟨status, _, _, hline, ?_⟩
  rw [← hs₁]
  dsimp only at h
  split at h
  next htrue =>
    obtain ⟨⟨ret, s'⟩, hhand, h⟩ := Option.bind_eq_some_iff.mp h
    cases h
    refine .inr ⟨hagain.mp htrue, ret, s', hhand, ?_⟩
    rw [hs₁]
  next hfalse =>
    cases h
    exact .inl ⟨not_not.mp fun hne => hfalse (hagain.mpr hne), rfl⟩

lemma processRead_noContent (h : s.processRead = some call) (hs : s.NoContent) :
    call.conn.NoContent := by
  obtain ⟨status, readBuf, checkedIdx, -, ⟨-, rfl⟩ | ⟨-, ret, s', hhand, rfl⟩⟩ :=
    processRead_cases hs.checkState h
  · exact ⟨hs.checkState, hs.contentLength⟩
  · exact handLine_noContent hhand ⟨hs.checkState, hs.contentLength⟩

lemma Step.noContent {e : Event} (h : Step s e s') (hs : s.NoContent) : s'.NoContent := by
  cases h with
  | append _ => exact ⟨hs.checkState, hs.contentLength⟩
  | processRead h => exact processRead_noContent h hs

/-- No content is expected in any run. -/
theorem run_noContent (hrun : Trace Step init es s) : s.NoContent :=
  hrun.invariant (fun _ _ _ hs h => h.noContent hs) ⟨by decide, rfl⟩

/-! ### Against the loop of `parse_content` -/

/-- The turns that `specProcessRead` is given suffice: with more, the loop ends in the same way. -/
theorem contentLoop_congr : ∀ {n m : ℕ} {s : HttpConn}, s.readIdx - s.checkedIdx < n →
    s.readIdx - s.checkedIdx < m → contentLoop n s = contentLoop m s
  | 0, _, _, hn, _ => absurd hn (Nat.not_lt_zero _)
  | _, 0, _, _, hm => absurd hm (Nat.not_lt_zero _)
  | n + 1, m + 1, s, hn, hm => by
    rw [contentLoop, contentLoop]
    apply Option.bind_congr
    rintro ⟨status, readBuf, checkedIdx⟩ hline
    cases status with
    | lineOpen => rfl
    | lineBad => rfl
    | lineOk =>
      dsimp only
      split
      next => rfl
      next hcontent =>
        apply Option.bind_congr
        rintro ⟨ret, s'⟩ hhand
        cases ret with
        | some ret => rfl
        | none =>
          -- the line is off the buffer, and its parser moves neither index
          have hkeeps := (handLine_cases (s := { s with readBuf, checkedIdx }) hcontent hhand).1
          have hlt : s'.readIdx - s'.checkedIdx < s.readIdx - s.checkedIdx := by
            rw [hkeeps.readIdx, hkeeps.checkedIdx]
            exact parseLine_advances hline
          have ih : contentLoop n s' = contentLoop m s' :=
            contentLoop_congr (by omega) (by omega)
          dsimp only
          rw [ih]

lemma contentLoop_returned : ∀ {fuel : ℕ} {s : HttpConn} {call : Call},
    contentLoop fuel s = some call → call.returned ≠ none
  | 0, _, _, h => by cases h
  | fuel + 1, s, call, h => by
    obtain ⟨⟨status, readBuf, checkedIdx⟩, -, h⟩ := Option.bind_eq_some_iff.mp h
    cases status with
    | lineOpen =>
      cases h
      simp
    | lineBad =>
      cases h
      simp
    | lineOk =>
      dsimp only at h
      split at h
      next =>
        cases h
        simp
      next =>
        obtain ⟨⟨_ | ret, s'⟩, -, h⟩ := Option.bind_eq_some_iff.mp h
        · obtain ⟨rest, hrest, h⟩ := Option.bind_eq_some_iff.mp h
          have hne := contentLoop_returned hrest
          cases h
          exact hne
        · cases h
          simp

/-- What is to be returned when there is no line. -/
def noLineCode : LineStatus → HttpCode
  | .lineOpen => .noRequest
  | _ => .badRequest

lemma specProcessRead_of_ne {status : LineStatus}
    (hline : parseLine s.readBuf s.checkedIdx s.readIdx = some (status, readBuf, checkedIdx))
    (hne : status ≠ .lineOk) : s.specProcessRead =
      some ⟨some (.code (noLineCode status)), [], { s with readBuf, checkedIdx }⟩ := by
  rw [specProcessRead, contentLoop, hline, Option.bind_eq_bind, Option.bind_some]
  cases status with
  | lineOk => exact absurd rfl hne
  | lineBad => rfl
  | lineOpen => rfl

lemma not_agrees (hs : s.checkState ≠ .content) : ¬ s.Agrees := by
  rintro ⟨call, spec, hcall, hspec, hreturned, hhanded⟩
  obtain ⟨status, readBuf, checkedIdx, hline, ⟨-, rfl⟩ | ⟨hne, ret, s', -, rfl⟩⟩ :=
    processRead_cases hs hcall
  · exact contentLoop_returned hspec hreturned.symm
  · rw [specProcessRead_of_ne hline hne] at hspec
    cases hspec
    cases hhanded

/-- A line parser makes `process_read` return an error or the request. -/
lemma handLine_some {r : Returned} (h : s.handLine = some (some r, s')) :
    r = .code .badRequest ∨ r = .doRequest := by
  rw [handLine] at h
  dsimp only at h
  split at h
  all_goals
    obtain ⟨⟨code, s₁⟩, -, h⟩ := Option.bind_eq_some_iff.mp h
    simp only [Option.some.injEq, Prod.mk.injEq] at h
    obtain ⟨h, -⟩ := h
    grind

/-- The parser takes an unfinished line for a good one, or a malformed line for a bad one. -/
def LuckyLine (s : HttpConn) : Prop :=
  ∃ status readBuf checkedIdx ret s',
    parseLine s.readBuf s.checkedIdx s.readIdx = some (status, readBuf, checkedIdx) ∧
    handLine { s with readBuf, checkedIdx } = some (ret, s') ∧
    ((status = .lineOpen ∧ ret = none) ∨ (status = .lineBad ∧ ret = some (.code .badRequest)))

lemma returned_iff {spec : Call} (hs : s.checkState ≠ .content) (hcall : s.processRead = some call)
    (hspec : s.specProcessRead = some spec) : call.returned = spec.returned ↔ s.LuckyLine := by
  obtain ⟨status, readBuf, checkedIdx, hline, ⟨rfl, rfl⟩ | ⟨hne, ret, s', hhand, rfl⟩⟩ :=
    processRead_cases hs hcall
  · refine ⟨fun h => absurd h.symm (contentLoop_returned hspec), ?_⟩
    rintro ⟨status, readBuf', checkedIdx', ret, s', hline', -, hstatus⟩
    cases hline.symm.trans hline'
    rcases hstatus with ⟨h, -⟩ | ⟨h, -⟩ <;> cases h
  · rw [specProcessRead_of_ne hline hne] at hspec
    cases hspec
    constructor
    · intro h
      refine ⟨status, readBuf, checkedIdx, ret, s', hline, hhand, ?_⟩
      cases ret with
      | none =>
        cases status with
        | lineOk => exact absurd rfl hne
        | lineBad => cases h
        | lineOpen => exact .inl ⟨rfl, rfl⟩
      | some r =>
        obtain rfl : r = .code (noLineCode status) := Option.some.inj h
        rcases handLine_some hhand with hr | hr
        · cases status with
          | lineOk => exact absurd rfl hne
          | lineBad => exact .inr ⟨rfl, rfl⟩
          | lineOpen => cases hr
        · cases hr
    · rintro ⟨status', readBuf', checkedIdx', ret', s'', hline', hhand', hstatus⟩
      cases hline.symm.trans hline'
      cases hhand.symm.trans hhand'
      rcases hstatus with ⟨rfl, rfl⟩ | ⟨rfl, rfl⟩ <;> rfl

/-- `"GET / HTTP/1.1\r\n"` -/
def getRoot : Bytes :=
  ascii ['G', 'E', 'T', ' ', '/', ' ', 'H', 'T', 'T', 'P', '/', '1', '.', '1', '\r', '\n']

/-- In no run does a call do what it is to do, and a line that is handed over by mistake decides
whether it returns what it is to return. -/
theorem run_misreads (hrun : Trace Step init es s) :
    ¬ s.Agrees ∧ ∀ call spec, s.processRead = some call → s.specProcessRead = some spec →
      (call.returned = spec.returned ↔ s.LuckyLine) :=
  have hs := (run_noContent hrun).checkState
  ⟨not_agrees hs, fun _ _ => returned_iff hs⟩

theorem run_misreads_getRoot : ¬ (init.append getRoot).Agrees :=
  (run_misreads (.cons (.append (by decide)) (.nil _))).1

/-- With one line in the buffer, no value is returned and the line is not handed to a parser. -/
theorem processRead_loses_line :
    ∃ s call spec, Trace Step init [.append getRoot] s ∧ s.processRead = some call ∧
      s.specProcessRead = some spec ∧ call.returned = none ∧ call.handed = [] ∧
      spec.returned = some (.code .badRequest) ∧ spec.handed = [(.requestLine, 0)] :=
  ⟨_, _, _, .cons (.append (by decide)) (.nil _), rfl, rfl, rfl, rfl, rfl, rfl⟩

end LinuxServer.HttpConn
