import LinuxServer.ParseHttp.Connection

/-!
# The indices of the request parser

However the bytes arrive and however often `parse_content` is called, behind a refused line as well:
the lines that were found end where they ended on the wire, the current line and what was not looked
at are as they were received, and nothing is read or written from `read_index` on.
-/

namespace LinuxServer.ParseHttp

open Core

variable {g g' : Progress} {code : HttpCode} {x d line line' rest a held pad chunk : Bytes}

/-! ### The bytes that were received -/

/-- Of the bytes `x`, the lines that are finished were received as `d`. -/
structure Wire (g : Progress) (x d : Bytes) : Prop where
  bytes : x = d ++ g.cur ++ g.rest
  length : d.length = g.done.length
  ends : d = [] ∨ ∃ d' l, d = d' ++ [cr, lf] ∧ g.done = l ++ nuls

lemma wire_start : Wire (.start []) [] [] := ⟨rfl, rfl, .inl rfl⟩

lemma Wire.append (h : Wire g x d) (y : Bytes) : Wire (g.append y) (x ++ y) d where
  bytes := by
    rw [h.bytes]
    simp [Progress.append]
  length := h.length
  ends := h.ends

lemma Wire.upTo (h : Wire g x d) (hrest : g.rest = a ++ rest) : Wire (g.upTo a rest) x d where
  bytes := by
    rw [h.bytes, hrest]
    simp [Progress.upTo]
  length := h.length
  ends := h.ends

lemma Wire.endLine {state : CheckState} (h : Wire g x d) (hrest : g.rest = a ++ cr :: lf :: rest)
    (hlen : line'.length = (g.cur ++ a).length) :
    Wire (g.endLine state line' rest) x (d ++ g.cur ++ a ++ [cr, lf]) where
  bytes := by
    rw [h.bytes, hrest]
    simp [Progress.endLine]
  length := by
    simp only [Progress.endLine, nuls, List.length_append, h.length, hlen, List.length_cons,
      List.length_nil]
    omega
  ends := .inr ⟨_, _, rfl, rfl⟩

lemma Wire.turn (h : Wire g x d) : (∀ code g', g.turn = .stop code g' → ∃ d', Wire g' x d') ∧
    ∀ g', g.turn = .go g' → ∃ d', Wire g' x d' := by
  have hof := scan_of g.rest
  cases hscan : scan g.rest with
  | more a held =>
    rw [hscan] at hof
    rw [Progress.turn_of_more hscan]
    refine ⟨fun code g' heq => ?_, fun g' heq => by cases heq⟩
    cases heq
    exact ⟨d, h.upTo hof.1⟩
  | bad a rest =>
    rw [hscan] at hof
    rw [Progress.turn_of_bad hscan]
    refine ⟨fun code g' heq => ?_, fun g' heq => by cases heq⟩
    cases heq
    exact ⟨d, h.upTo hof.1⟩
  | line a rest =>
    rw [hscan] at hof
    rw [Progress.turn_of_line hscan]
    refine ⟨fun code g' heq => ?_, fun g' heq => ?_⟩
    · obtain ⟨-, state, line', hlen, rfl⟩ := Progress.turnLine_stop_eq heq
      exact ⟨_, h.endLine hof.1 hlen⟩
    · obtain ⟨line', hlen, rfl⟩ := Progress.turnLine_go_eq heq
      exact ⟨_, h.endLine hof.1 hlen⟩

lemma Wire.content (hc : Content g code g') (h : Wire g x d) : ∃ d', Wire g' x d' := by
  induction hc generalizing d with
  | stop hturn => exact h.turn.1 _ _ hturn
  | go hturn _ ih =>
    obtain ⟨d', h'⟩ := h.turn.2 _ hturn
    exact ih h'

/-- What waits has held back nothing, or a CR. -/
lemma Progress.Waiting.rest_eq (h : g.Waiting) : g.rest = [] ∨ g.rest = [cr] := by
  obtain ⟨a, held, hscan, hg⟩ := Progress.turn_eq_more h
  have hof := scan_of g.rest
  rw [hscan] at hof
  rw [show g.rest = held from congrArg Progress.rest hg]
  exact hof.2.2

namespace Parser

variable {s s' t : Parser}

/-! ### What holds of the indices -/

/-- The parser when it has received `x`. -/
structure Indexed (s : Parser) (x : Bytes) : Prop where
  startLine_le : s.startLine ≤ s.checkedIndex
  checkedIndex_le : s.checkedIndex ≤ s.readIndex
  readIndex : s.readIndex = x.length
  received : ∀ i, s.startLine ≤ i → i < s.readIndex → s.buffer[i]? = x[i]?
  plain : ∀ i, s.startLine ≤ i → i < s.checkedIndex → s.buffer[i]? ≠ some cr ∧ s.buffer[i]? ≠ some lf
  before : 0 < s.checkedIndex → s.buffer[s.checkedIndex - 1]? ≠ some cr
  /-- The branch of CR of `parse_line` finds the end of a line, and that of LF does not. -/
  lineOk : ∀ buffer checkedIndex,
    parseLine s.buffer s.checkedIndex s.readIndex = some (.lineOk, buffer, checkedIndex) →
      s.checkedIndex + 2 ≤ checkedIndex ∧ PairAt s.buffer (checkedIndex - 2)
  /-- In front of the current line there was a pair, and there are NULs. -/
  startLine : s.startLine = 0 ∨ 2 ≤ s.startLine ∧ PairAt x (s.startLine - 2) ∧
    s.buffer[s.startLine - 2]? = some 0 ∧ s.buffer[s.startLine - 1]? = some 0

/-- In a call of `parse_content` in the state `s`, `parse_line` is called in the state `t`. -/
inductive Calls (s : Parser) : Parser → Prop
  | first : Calls s s
  | next {t t' : Parser} {buffer : Bytes} {checkedIndex : ℕ} {code : HttpCode} : Calls s t →
      parseLine t.buffer t.checkedIndex t.readIndex = some (.lineOk, buffer, checkedIndex) →
      ({ t with buffer := buffer, checkedIndex := checkedIndex } : Parser).handleLine =
        some (code, t') →
      code ≠ .badRequest → code ≠ .getRequest → Calls s t'

/-- The parser on a buffer that ends at `read_index`. -/
def trim (s : Parser) : Parser := { s with buffer := s.buffer.take s.readIndex }

/-- A call of `parse_content`, when `x` was received. -/
structure Parses (s : Parser) (x : Bytes) (code : HttpCode) (s' : Parser) : Prop where
  indexed : ∀ t, s.Calls t → t.Indexed x
  /-- The same is done on a buffer that ends at `read_index`, where an access behind it is `none`. -/
  below : s.trim.parseContent = some (code, s'.trim)
  waits : code = .noRequest → s'.checkedIndex = s'.readIndex ∨
    s'.checkedIndex + 1 = s'.readIndex ∧ s'.buffer[s'.checkedIndex]? = some cr

/-! ### Progress shown by a buffer -/

/-- What is shown of a valid progress on the bytes `x`. -/
structure Holds (s : Parser) (g : Progress) (x d pad : Bytes) : Prop where
  shows : s.Shows g pad
  valid : g.Valid
  wire : Wire g x d

lemma Holds.received (h : s.Holds g x d pad) {i : ℕ} (hstart : s.startLine ≤ i)
    (hi : i < s.readIndex) :
    s.buffer[i]? = x[i]? ∧ s.buffer[i]? = (g.cur ++ g.rest)[i - g.done.length]? := by
  have hread := h.shows.readIndex
  rw [h.shows.startLine] at hstart
  have hlt : i - g.done.length < (g.cur ++ g.rest).length := by
    rw [List.length_append]
    omega
  have hbuffer : s.buffer[i]? = (g.cur ++ g.rest)[i - g.done.length]? := by
    rw [h.shows.buffer, List.append_assoc g.done, List.append_assoc,
      List.getElem?_append_right hstart, List.getElem?_append_left hlt]
  have hx : x[i]? = (g.cur ++ g.rest)[i - g.done.length]? := by
    rw [h.wire.bytes, List.append_assoc, List.getElem?_append_right (h.wire.length.trans_le hstart),
      h.wire.length]
  exact ⟨hbuffer.trans hx.symm, hbuffer⟩

lemma Holds.plain (h : s.Holds g x d pad) {i : ℕ} (hstart : s.startLine ≤ i)
    (hi : i < s.checkedIndex) :
    s.buffer[i]? ≠ some cr ∧ s.buffer[i]? ≠ some lf := by
  have hchecked := h.shows.checkedIndex
  have hread := h.shows.readIndex
  have hbuffer := (h.received hstart (by omega)).2
  rw [h.shows.startLine] at hstart
  have hlt : i - g.done.length < g.cur.length := by omega
  rw [List.getElem?_append_left hlt, List.getElem?_eq_getElem hlt] at hbuffer
  obtain ⟨hcr, hlf⟩ := h.valid.plain _ (List.getElem_mem hlt)
  rw [hbuffer]
  exact ⟨fun heq => hcr (Option.some.inj heq), fun heq => hlf (Option.some.inj heq)⟩

lemma Holds.before (h : s.Holds g x d pad) (hpos : 0 < s.checkedIndex) :
    s.buffer[s.checkedIndex - 1]? ≠ some cr := by
  have hchecked : s.checkedIndex = (g.done ++ g.cur).length := by
    rw [h.shows.checkedIndex, List.length_append]
  rw [h.shows.buffer, List.append_assoc (g.done ++ g.cur), List.getElem?_append_left (by omega),
    hchecked, ← List.getLast?_eq_getElem?]
  exact h.valid.getLast?_ne

lemma Holds.lineOk (h : s.Holds g x d pad) {buffer : Bytes} {checkedIndex : ℕ}
    (hline : parseLine s.buffer s.checkedIndex s.readIndex = some (.lineOk, buffer, checkedIndex)) :
    ∃ a rest, g.rest = a ++ cr :: lf :: rest ∧ scan g.rest = .line a rest ∧
      buffer = g.done ++ g.cur ++ a ++ 0 :: 0 :: (rest ++ pad) ∧
      checkedIndex = (g.done ++ g.cur).length + a.length + 2 := by
  rw [h.shows.parseLine h.valid] at hline
  have hof := scan_of g.rest
  cases hscan : scan g.rest with
  | more a held =>
    rw [hscan] at hline
    cases hline
  | bad a rest =>
    rw [hscan] at hline
    cases hline
  | line a rest =>
    rw [hscan] at hline hof
    cases hline
    exact ⟨a, rest, hof.1, rfl, rfl, rfl⟩

lemma Holds.startLine (h : s.Holds g x d pad) : s.startLine = 0 ∨ 2 ≤ s.startLine ∧
    PairAt x (s.startLine - 2) ∧ s.buffer[s.startLine - 2]? = some 0 ∧
    s.buffer[s.startLine - 1]? = some 0 := by
  have hlen := h.wire.length
  rw [h.shows.startLine]
  rcases h.wire.ends with hnil | ⟨d', l, hd, hdone⟩
  · left
    rw [← hlen, hnil]
    rfl
  · right
    have hd' : d.length = d'.length + 2 := by simp [hd]
    have hl : g.done.length = l.length + 2 := by simp [hdone, nuls]
    have hsame : d'.length = l.length := by omega
    rw [hl, Nat.add_sub_cancel]
    refine ⟨by omega, ?_, ?_, ?_⟩
    · rw [h.wire.bytes, hd, ← hsame, List.append_assoc, List.append_assoc]
      exact pairAt_length _ _
    · rw [h.shows.buffer, hdone]
      simp [nuls]
    · rw [h.shows.buffer, hdone]
      simp [nuls]

lemma Holds.indexed (h : s.Holds g x d pad) : s.Indexed x where
  startLine_le := by
    rw [h.shows.startLine, h.shows.checkedIndex]
    omega
  checkedIndex_le := by
    rw [h.shows.checkedIndex, h.shows.readIndex]
    omega
  readIndex := by
    rw [h.shows.readIndex, h.wire.bytes, List.length_append, List.length_append, h.wire.length]
  received _ hstart hi := (h.received hstart hi).1
  plain _ hstart hi := h.plain hstart hi
  before := h.before
  lineOk buffer checkedIndex hline := by
    obtain ⟨a, rest, hrest, -, -, rfl⟩ := h.lineOk hline
    constructor
    · rw [h.shows.checkedIndex, List.length_append]
      omega
    · rw [Nat.add_sub_cancel, ← List.length_append, h.shows.buffer, hrest,
        ← List.append_assoc (_ ++ _), List.append_assoc _ _ pad]
      exact pairAt_length _ _
  startLine := h.startLine

/-! ### A call of `parse_content` -/

/-- A finished line is one more line that was received, and the next call of `parse_line` goes on
behind it. -/
lemma Holds.next {buffer : Bytes} {checkedIndex : ℕ} (h : s.Holds g x d pad)
    (hline : parseLine s.buffer s.checkedIndex s.readIndex = some (.lineOk, buffer, checkedIndex))
    (hhandle : ({ s with buffer := buffer, checkedIndex := checkedIndex } : Parser).handleLine =
      some (code, s')) (hbad : code ≠ .badRequest) (hget : code ≠ .getRequest) :
    ∃ g' d', s'.Holds g' x d' pad := by
  obtain ⟨a, rest, hrest, hscan, rfl, rfl⟩ := h.lineOk hline
  have hturn := Progress.turn_of_line hscan
  obtain ⟨code', s'', hs'', hcases⟩ := (h.shows.atLine hrest).handleLine
  cases hhandle.symm.trans hs''
  rcases hcases with ⟨g', hstop, -⟩ | ⟨g', hgo, -, hshows⟩
  · rcases (Progress.turnLine_stop_eq hstop).1 with hcode | hcode
    · exact absurd hcode hbad
    · exact absurd hcode hget
  · obtain ⟨d', hw'⟩ := h.wire.turn.2 _ (hturn.trans hgo)
    obtain ⟨line', -, rfl⟩ := Progress.turnLine_go_eq hgo
    exact ⟨_, d', hshows, Progress.valid_endLine _ _ _ _, hw'⟩

lemma Holds.calls (h : s.Holds g x d pad) (hc : s.Calls t) : ∃ g' d', t.Holds g' x d' pad := by
  induction hc with
  | first => exact ⟨g, d, h⟩
  | next _ hline hhandle hbad hget ih =>
    obtain ⟨g', d', h'⟩ := ih
    exact h'.next hline hhandle hbad hget

/-- What is shown of the progress does not depend on what was not received. -/
lemma Shows.trim (h : s.Shows g pad) : s.trim.Shows g [] where
  buffer := by
    have hread : s.readIndex = (g.done ++ g.cur ++ g.rest).length := by
      rw [h.readIndex, List.length_append, List.length_append]
    show s.buffer.take s.readIndex = _
    rw [h.buffer, hread, List.take_left', List.append_nil]
    rfl
  checkedIndex := h.checkedIndex
  readIndex := h.readIndex
  startLine := h.startLine
  checkState := h.checkState

/-- The progress and the bytes behind it say what the parser is. -/
lemma Shows.eq (h : s.Shows g pad) : s = ⟨g.done ++ g.cur ++ g.rest ++ pad,
    g.done.length + g.cur.length, g.done.length + g.cur.length + g.rest.length, g.done.length,
    g.state⟩ := by
  rw [← h.buffer, ← h.readIndex, ← h.checkedIndex, ← h.startLine, ← h.checkState]

lemma Holds.parses (h : s.Holds g x d pad) : ∃ code s' g' d', s.parseContent = some (code, s') ∧
    s.Parses x code s' ∧ s'.Holds g' x d' pad := by
  obtain ⟨code, g', s', hs', hc, hv', hshows⟩ := parseContent_spec h.shows h.valid
  obtain ⟨d', hw'⟩ := h.wire.content hc
  have h' : s'.Holds g' x d' pad := ⟨hshows, hv', hw'⟩
  refine ⟨code, s', g', d', hs', ⟨?_, ?_, ?_⟩, h'⟩
  · intro t ht
    obtain ⟨g₁, d₁, h₁⟩ := h.calls ht
    exact h₁.indexed
  · obtain ⟨code₁, g₁, s₁, hs₁, hc₁, -, hshows₁⟩ := parseContent_spec h.shows.trim h.valid
    obtain ⟨rfl, rfl⟩ := hc.unique hc₁
    rw [hs₁, hshows₁.eq.trans hshows.trim.eq.symm]
  · intro hcode
    have hlast : s'.checkedIndex + g'.rest.length = s'.readIndex := by
      rw [hshows.checkedIndex, hshows.readIndex]
    rcases (hc.waiting hcode).rest_eq with hrest | hrest
    · rw [hrest] at hlast
      exact .inl hlast
    · rw [hrest] at hlast
      have hbuffer := (h'.received (Holds.indexed h').startLine_le (hlast ▸ Nat.lt_succ_self _)).2
      refine .inr ⟨hlast, ?_⟩
      rw [hbuffer, hshows.checkedIndex, Nat.add_sub_cancel_left, hrest,
        List.getElem?_append_right le_rfl, Nat.sub_self]
      rfl

end Parser

/-! ### Runs -/

/-- A parser, and what it has received. -/
structure Feed where
  parser : Parser
  received : Bytes

namespace Feed

def start : Feed := ⟨.init, []⟩

inductive Event
  | append (chunk : Bytes)
  | parseContent (code : HttpCode)

/-- Bytes are appended, and `parse_content` is called, in any order. -/
inductive Step : Feed → Event → Feed → Prop
  | append {s : Feed} {chunk : Bytes} {p : Parser} :
      s.parser.recv chunk = some p → Step s (.append chunk) ⟨p, s.received ++ chunk⟩
  | parseContent {s : Feed} {code : HttpCode} {p : Parser} :
      s.parser.parseContent = some (code, p) → Step s (.parseContent code) ⟨p, s.received⟩

variable {s s' : Feed} {e : Event} {es : List Event}

/-- Some progress is shown. -/
def Sound (s : Feed) : Prop := ∃ g d pad, s.parser.Holds g s.received d pad

lemma sound_start : start.Sound := ⟨.start [], [], _, Parser.shows_init, .start [], wire_start⟩

lemma Step.sound (hs : Step s e s') (h : s.Sound) : s'.Sound := by
  obtain ⟨g, d, pad, h⟩ := h
  cases hs with
  | @append chunk p hrecv =>
    obtain ⟨pad', hshows⟩ := Connection.shows_of_recv h.shows hrecv
    exact ⟨_, d, pad', hshows, ⟨h.valid.plain, h.valid.last⟩, h.wire.append chunk⟩
  | parseContent hparse =>
    obtain ⟨code', p', g', d', hp', -, h'⟩ := h.parses
    cases hparse.symm.trans hp'
    exact ⟨g', d', pad, h'⟩

/-- In every state that appended bytes and calls of `parse_content` lead to, the indices are in
order, and a call of `parse_content` keeps to them and to what was received. -/
theorem run_indexed (h : Trace Step start es s) : s.parser.Indexed s.received ∧
    ∃ code p, s.parser.parseContent = some (code, p) ∧ s.parser.Parses s.received code p := by
  obtain ⟨g, d, pad, hholds⟩ := h.invariant (fun _ _ _ hsound hs => hs.sound hsound) sound_start
  obtain ⟨code, p, -, -, hp, hparses, -⟩ := hholds.parses
  exact ⟨hholds.indexed, code, p, hp, hparses⟩

/-- A request line and the CR of the blank line; the parser is called before the rest arrives. -/
theorem run_indexed_get : ∃ s, Trace Step start [.append (ascii "GET / HTTP/1.1\r\n\r".toList),
    .parseContent .noRequest] s ∧ s.parser.Indexed s.received ∧
      ∃ code p, s.parser.parseContent = some (code, p) ∧ s.parser.Parses s.received code p := by
  have hfit : (ascii "GET / HTTP/1.1\r\n\r".toList).length ≤
      (List.replicate Parser.bufferSize (0 : UInt8)).length := by
    rw [List.length_replicate]
    decide
  obtain ⟨p, hp, hshows⟩ := Parser.shows_init.recv hfit
  obtain ⟨code, g, q, hq, hc, -, -⟩ := Parser.parseContent_spec hshows ⟨plain_nil, by decide⟩
  obtain ⟨rfl, -⟩ := hc.unique (.go rfl (.stop rfl))
  have hrun : Trace Step start _ _ := .cons (.append hp) (.cons (.parseContent hq) (.nil _))
  exact ⟨_, hrun, run_indexed hrun⟩

end Feed

end LinuxServer.ParseHttp
