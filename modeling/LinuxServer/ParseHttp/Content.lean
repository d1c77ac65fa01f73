import LinuxServer.ParseHttp.Properties

/-!
# A call of `parse_content`

What is known of the bytes received so far: the lines that are finished, as their parsers have left
them; the bytes of the current line that were looked at; and those that were not. `turn` says how a
turn of the loop of `parse_content` moves on from there, and `Content` how a whole call does. They
name no index and no buffer.
-/

namespace LinuxServer.ParseHttp

open Core

/-- The two NULs that `parse_line` writes over the end of a line. -/
def nuls : Bytes := [0, 0]

structure Progress where
  state : CheckState
  done : Bytes
  cur : Bytes
  rest : Bytes

inductive Turn
  | stop (code : HttpCode) (g : Progress)
  | go (g : Progress)

namespace Progress

/-- Up to an undecided byte or an error, of the current line `a` was looked at. -/
def upTo (g : Progress) (a rest : Bytes) : Progress := { g with cur := g.cur ++ a, rest := rest }

/-- The current line is finished and left as `line`. -/
def endLine (g : Progress) (state : CheckState) (line rest : Bytes) : Progress :=
  ⟨state, g.done ++ line ++ nuls, [], rest⟩

/-- With more bytes received. -/
def append (g : Progress) (y : Bytes) : Progress := { g with rest := g.rest ++ y }

/-- Before anything was looked at. -/
def start (x : Bytes) : Progress := ⟨.requestLine, [], [], x⟩

/-- A turn of the loop, when `parse_line` has found the line `line` in front of `rest`. -/
def turnLine (g : Progress) (line rest : Bytes) : Turn :=
  match g.state with
  | .requestLine =>
    if (requestLine line).1 = .badRequest then
      .stop .badRequest (g.endLine .requestLine (requestLine line).2 rest)
    else
      .go (g.endLine .header (requestLine line).2 rest)
  | .header =>
    if cut line = [] then
      .stop .getRequest (g.endLine .header line rest)
    else
      .go (g.endLine .header line rest)

/-- A turn of the loop. -/
def turn (g : Progress) : Turn :=
  match scan g.rest with
  | .more a held => .stop .noRequest (g.upTo a held)
  | .bad a rest => .stop .badRequest (g.upTo a rest)
  | .line a rest => g.turnLine (g.cur ++ a) rest

/-- The bytes that were looked at do not end the line, nor do they with the byte in front of them. -/
structure Valid (g : Progress) : Prop where
  plain : Plain g.cur
  last : g.done.getLast? ≠ some cr

end Progress

/-- A call of `parse_content` from the progress `g`. -/
inductive Content : Progress → HttpCode → Progress → Prop
  | stop {g g' : Progress} {code : HttpCode} : g.turn = .stop code g' → Content g code g'
  | go {g g₁ g' : Progress} {code : HttpCode} : g.turn = .go g₁ → Content g₁ code g' →
      Content g code g'

variable {g g₁ g₂ g' : Progress} {code c₁ c₂ : HttpCode} {line rest a held : Bytes}

/-- A call has one outcome. -/
theorem Content.unique (h₁ : Content g c₁ g₁) (h₂ : Content g c₂ g₂) : c₁ = c₂ ∧ g₁ = g₂ := by
  induction h₁ with
  | stop h =>
    cases h₂ with
    | stop h' =>
      cases h.symm.trans h'
      exact ⟨rfl, rfl⟩
    | go h' => cases h.symm.trans h'
  | go h _ ih =>
    cases h₂ with
    | stop h' => cases h.symm.trans h'
    | go h' hrest =>
      cases h.symm.trans h'
      exact ih hrest

namespace Progress

/-! ### Turns -/

lemma turn_of_more (h : scan g.rest = .more a held) : g.turn = .stop .noRequest (g.upTo a held) := by
  rw [turn, h]

lemma turn_of_bad (h : scan g.rest = .bad a rest) : g.turn = .stop .badRequest (g.upTo a rest) := by
  rw [turn, h]

lemma turn_of_line (h : scan g.rest = .line a rest) : g.turn = g.turnLine (g.cur ++ a) rest := by
  rw [turn, h]

lemma turnLine_requestLine (h : g.state = .requestLine) (line rest : Bytes) : g.turnLine line rest =
    if (requestLine line).1 = .badRequest then
      .stop .badRequest (g.endLine .requestLine (requestLine line).2 rest)
    else
      .go (g.endLine .header (requestLine line).2 rest) := by
  rw [turnLine, h]

lemma turnLine_header (h : g.state = .header) (line rest : Bytes) : g.turnLine line rest =
    if cut line = [] then .stop .getRequest (g.endLine .header line rest)
    else .go (g.endLine .header line rest) := by
  rw [turnLine, h]

lemma Valid.start (x : Bytes) : (Progress.start x).Valid := ⟨plain_nil, by simp [Progress.start]⟩

lemma Valid.upTo (h : g.Valid) (ha : Plain a) (rest : Bytes) : (g.upTo a rest).Valid :=
  ⟨plain_append.mpr ⟨h.plain, ha⟩, h.last⟩

lemma valid_endLine (g : Progress) (state : CheckState) (line rest : Bytes) :
    (g.endLine state line rest).Valid :=
  ⟨plain_nil, by simp [endLine, nuls, cr]⟩

/-- A byte in front of the place of `checked_index` is not a CR. -/
lemma Valid.getLast?_ne (h : g.Valid) : (g.done ++ g.cur).getLast? ≠ some cr := by
  rw [List.getLast?_append]
  cases hcur : g.cur.getLast? with
  | none => simpa using h.last
  | some c =>
    have hc := (h.plain c (List.mem_of_getLast? hcur)).1
    simpa using hc

lemma turnLine_go_eq (h : g.turnLine line rest = .go g₁) :
    ∃ line', line'.length = line.length ∧ g₁ = g.endLine .header line' rest := by
  rw [turnLine] at h
  split at h
  · split at h
    next => cases h
    next =>
      cases h
      exact ⟨_, requestLine_length line, rfl⟩
  · split at h
    next => cases h
    next =>
      cases h
      exact ⟨line, rfl, rfl⟩

lemma turnLine_stop_eq (h : g.turnLine line rest = .stop code g₁) :
    (code = .badRequest ∨ code = .getRequest) ∧
      ∃ state line', line'.length = line.length ∧ g₁ = g.endLine state line' rest := by
  rw [turnLine] at h
  split at h
  · split at h
    next =>
      cases h
      exact ⟨.inl rfl, _, _, requestLine_length line, rfl⟩
    next => cases h
  · split at h
    next =>
      cases h
      exact ⟨.inr rfl, _, _, rfl, rfl⟩
    next => cases h

end Progress

/-! ### The buffer -/

namespace Parser

/-- The buffer and the indices show the progress `g`; the bytes `pad` were not received. -/
structure Shows (s : Parser) (g : Progress) (pad : Bytes) : Prop where
  buffer : s.buffer = g.done ++ g.cur ++ g.rest ++ pad
  checkedIndex : s.checkedIndex = g.done.length + g.cur.length
  readIndex : s.readIndex = g.done.length + g.cur.length + g.rest.length
  startLine : s.startLine = g.done.length
  checkState : s.checkState = g.state

variable {s : Parser} {pad : Bytes}

lemma Shows.parseLine (h : s.Shows g pad) (hv : g.Valid) :
    parseLine s.buffer s.checkedIndex s.readIndex =
      some (lineResult (g.done ++ g.cur) pad (scan g.rest)) := by
  rw [h.buffer, h.checkedIndex, h.readIndex, ← List.length_append]
  exact parseLine_spec hv.getLast?_ne

/-- After `parse_line` has found the line `line` in front of `rest`. -/
structure AtLine (s : Parser) (g : Progress) (line rest pad : Bytes) : Prop where
  buffer : s.buffer = g.done ++ line ++ 0 :: (0 :: (rest ++ pad))
  checkedIndex : s.checkedIndex = g.done.length + line.length + 2
  readIndex : s.readIndex = g.done.length + line.length + 2 + rest.length
  startLine : s.startLine = g.done.length
  checkState : s.checkState = g.state

/-- The state that the buffer and the index of `parse_line` leave. -/
lemma Shows.atLine (h : s.Shows g pad) (hrest : g.rest = a ++ cr :: lf :: rest) :
    AtLine { s with
      buffer := g.done ++ g.cur ++ a ++ 0 :: 0 :: (rest ++ pad)
      checkedIndex := (g.done ++ g.cur).length + a.length + 2 } g (g.cur ++ a) rest pad where
  buffer := by simp
  checkedIndex := by simp [add_assoc]
  readIndex := by
    simp [h.readIndex, hrest, add_assoc]
    omega
  startLine := h.startLine
  checkState := h.checkState

/-- A line left as `line'` by its parser is a finished one. -/
lemma AtLine.shows {line' : Bytes} {state : CheckState} (h : s.AtLine g line rest pad)
    (hlen : line'.length = line.length) :
    Shows { s with
      buffer := g.done ++ line' ++ 0 :: (0 :: (rest ++ pad))
      startLine := s.checkedIndex
      checkState := state } (g.endLine state line' rest) pad where
  buffer := by simp [Progress.endLine, nuls]
  checkedIndex := by
    rw [h.checkedIndex]
    simp [Progress.endLine, nuls, hlen, add_assoc]
  readIndex := by
    rw [h.readIndex]
    simp [Progress.endLine, nuls, hlen, add_assoc]
  startLine := by
    rw [h.checkedIndex]
    simp [Progress.endLine, nuls, hlen, add_assoc]
  checkState := rfl

/-- The line is handled as the turn says. -/
lemma AtLine.handleLine (h : s.AtLine g line rest pad) :
    ∃ code s', s.handleLine = some (code, s') ∧
      ((∃ g', g.turnLine line rest = .stop code g' ∧ s'.Shows g' pad) ∨
        ∃ g', g.turnLine line rest = .go g' ∧ code = .noRequest ∧ s'.Shows g' pad) := by
  have hbuf : ({ s with startLine := s.checkedIndex } : Parser).buffer =
      g.done ++ line ++ 0 :: (0 :: (rest ++ pad)) := h.buffer
  rw [Parser.handleLine, h.startLine]
  split
  next hstate =>
    have hg : g.state = .requestLine := h.checkState.symm.trans hstate
    rw [parseRequestLine_spec hbuf, Progress.turnLine_requestLine hg]
    refine ⟨_, _, rfl, ?_⟩
    rcases requestLine_code line with hcode | hcode
    · refine .inr ⟨_, if_neg (by rw [hcode]; decide), hcode, ?_⟩
      rw [if_pos hcode]
      exact h.shows (requestLine_length line)
    · refine .inl ⟨g.endLine .requestLine (requestLine line).2 rest, ?_, ?_⟩
      · rw [if_pos hcode, hcode]
      rw [if_neg (by rw [hcode]; decide)]
      exact hstate ▸ h.shows (requestLine_length line)
  next hstate =>
    have hg : g.state = .header := h.checkState.symm.trans hstate
    have hshows : Shows { s with startLine := s.checkedIndex } (g.endLine .header line rest) pad := by
      have hline := @AtLine.shows _ _ _ _ _ _ s.checkState h rfl
      rw [← h.buffer] at hline
      rwa [← (hstate : s.checkState = .header)]
    rw [parseHeaders_spec hbuf, Progress.turnLine_header hg]
    refine ⟨_, _, rfl, ?_⟩
    split
    next => exact .inl ⟨_, rfl, hshows⟩
    next => exact .inr ⟨_, rfl, rfl, hshows⟩

lemma parseContentLoop_spec : ∀ (fuel : ℕ) (g : Progress) (s : Parser), g.rest.length < fuel →
    s.Shows g pad → g.Valid →
    ∃ code g' s', parseContentLoop fuel s = some (code, s') ∧ Content g code g' ∧ g'.Valid ∧
      s'.Shows g' pad
  | 0, _, _, hfuel, _, _ => absurd hfuel (Nat.not_lt_zero _)
  | fuel + 1, g, s, hfuel, h, hv => by
    have hof := scan_of g.rest
    rw [parseContentLoop, h.parseLine hv, Option.bind_eq_bind, Option.bind_some]
    cases hscan : scan g.rest with
    | more a held =>
      rw [hscan] at hof
      obtain ⟨hrest, ha, -⟩ := hof
      refine ⟨_, g.upTo a held, _, rfl, .stop (Progress.turn_of_more hscan), hv.upTo ha held, ?_⟩
      refine ⟨by simp [Progress.upTo], by simp [Progress.upTo, add_assoc], ?_, h.startLine,
        h.checkState⟩
      simp [h.readIndex, hrest, Progress.upTo, add_assoc]
    | bad a rest =>
      rw [hscan] at hof
      obtain ⟨hrest, ha, -⟩ := hof
      refine ⟨_, g.upTo a rest, _, rfl, .stop (Progress.turn_of_bad hscan), hv.upTo ha rest, ?_⟩
      refine ⟨by simp [Progress.upTo], by simp [Progress.upTo, add_assoc], ?_, h.startLine,
        h.checkState⟩
      simp [h.readIndex, hrest, Progress.upTo, add_assoc]
    | line a rest =>
      rw [hscan] at hof
      obtain ⟨hrest, -⟩ := hof
      have hturn := Progress.turn_of_line hscan
      obtain ⟨code, s', hs', ⟨g', hg', hshows⟩ | ⟨g', hg', rfl, hshows⟩⟩ := (h.atLine hrest).handleLine
      · obtain ⟨hcode, state, line', -, rfl⟩ := Progress.turnLine_stop_eq hg'
        refine ⟨code, _, s', ?_, .stop (hturn.trans hg'), Progress.valid_endLine _ _ _ _, hshows⟩
        simp only [lineResult, hs']
        rcases hcode with rfl | rfl <;> rfl
      · obtain ⟨line', -, rfl⟩ := Progress.turnLine_go_eq hg'
        have hlt : rest.length < fuel := by
          rw [hrest, List.length_append, List.length_cons, List.length_cons] at hfuel
          omega
        obtain ⟨code, g₂, s₂, hs₂, hg₂, hv₂, hshows₂⟩ := parseContentLoop_spec fuel _ s' hlt hshows
          (Progress.valid_endLine _ _ _ _)
        refine ⟨code, g₂, s₂, ?_, .go (hturn.trans hg') hg₂, hv₂, hshows₂⟩
        simp only [lineResult, hs']
        exact hs₂

/-- `parse_content` does what `Content` says. -/
theorem parseContent_spec (h : s.Shows g pad) (hv : g.Valid) :
    ∃ code g' s', s.parseContent = some (code, s') ∧ Content g code g' ∧ g'.Valid ∧
      s'.Shows g' pad := by
  refine parseContentLoop_spec _ g s ?_ h hv
  rw [h.readIndex, h.checkedIndex]
  omega

end Parser

end LinuxServer.ParseHttp
