import LinuxServer.ParseHttp.Content

/-!
# Chunks of a request

A turn that was decided stays as it is when more bytes arrive, and one that was not is repeated, from
the bytes it held back, by the next call. So the calls of `parse_content` after each chunk are
together the call after the last of them.
-/

namespace LinuxServer.ParseHttp

open Core

variable {g g₁ g₂ g' : Progress} {code c₁ c₂ : HttpCode} {line rest : Bytes}

/-! ### More bytes -/

/-- With more bytes received. -/
def Turn.append (y : Bytes) : Turn → Turn
  | .stop code g => .stop code (g.append y)
  | .go g => .go (g.append y)

namespace Progress

/-- A call would only wait for more. -/
def Waiting (g : Progress) : Prop := g.turn = .stop .noRequest g

lemma waiting_start : (start []).Waiting := rfl

@[simp] lemma append_cur (g : Progress) (y : Bytes) : (g.append y).cur = g.cur := rfl

@[simp] lemma append_nil (g : Progress) : g.append [] = g := by
  simp [append]

@[simp] lemma append_append (g : Progress) (x y : Bytes) :
    (g.append x).append y = g.append (x ++ y) := by
  simp [append]

lemma turnLine_append (g : Progress) (line rest y : Bytes) :
    (g.append y).turnLine line (rest ++ y) = (g.turnLine line rest).append y := by
  unfold turnLine
  cases hstate : g.state with
  | requestLine =>
    simp only [append, hstate]
    split <;> rfl
  | header =>
    simp only [append, hstate]
    split <;> rfl

lemma turn_append_go (h : g.turn = .go g₁) (y : Bytes) : (g.append y).turn = .go (g₁.append y) := by
  cases hscan : scan g.rest with
  | more a held => cases (turn_of_more hscan).symm.trans h
  | bad a rest => cases (turn_of_bad hscan).symm.trans h
  | line a rest =>
    rw [turn_of_line hscan] at h
    rw [turn_of_line (scan_append_line hscan y), append_cur, turnLine_append, h]
    rfl

lemma turn_append_stop (h : g.turn = .stop code g₁) (hcode : code ≠ .noRequest) (y : Bytes) :
    (g.append y).turn = .stop code (g₁.append y) := by
  cases hscan : scan g.rest with
  | more a held =>
    cases (turn_of_more hscan).symm.trans h
    exact absurd rfl hcode
  | bad a rest =>
    cases (turn_of_bad hscan).symm.trans h
    exact turn_of_bad (scan_append_bad hscan y)
  | line a rest =>
    rw [turn_of_line hscan] at h
    rw [turn_of_line (scan_append_line hscan y), append_cur, turnLine_append, h]
    rfl

/-- A turn that waits has held back all that it did not decide. -/
lemma turn_eq_more (h : g.turn = .stop .noRequest g₁) :
    ∃ a held, scan g.rest = .more a held ∧ g₁ = g.upTo a held := by
  cases hscan : scan g.rest with
  | more a held =>
    cases (turn_of_more hscan).symm.trans h
    exact ⟨a, held, rfl, rfl⟩
  | bad a rest => cases (turn_of_bad hscan).symm.trans h
  | line a rest =>
    rw [turn_of_line hscan] at h
    rcases (turnLine_stop_eq h).1 with hcode | hcode <;> cases hcode

/-- With more bytes it is the turn from where it waited. -/
lemma turn_append_more (h : g.turn = .stop .noRequest g₁) (y : Bytes) :
    (g.append y).turn = (g₁.append y).turn := by
  obtain ⟨a, held, hscan, rfl⟩ := turn_eq_more h
  rw [turn, turn]
  simp only [append, upTo]
  rw [scan_append_more hscan]
  cases scan (held ++ y) with
  | more a' held' => simp [Scan.prepend]
  | bad a' rest => simp [Scan.prepend]
  | line a' rest => simp [Scan.prepend, turnLine, endLine]

lemma waiting_of_turn (h : g.turn = .stop .noRequest g₁) : g₁.Waiting := by
  obtain ⟨a, held, hscan, rfl⟩ := turn_eq_more h
  have hof := scan_of g.rest
  rw [hscan] at hof
  obtain ⟨-, -, hheld⟩ := hof
  have hscan' : scan held = .more [] held := by
    rcases hheld with rfl | rfl <;> rfl
  rw [Waiting, turn_of_more hscan']
  simp [upTo]

end Progress

namespace Content

/-- A result stays as it is. -/
lemma append (h : Content g code g') (hcode : code ≠ .noRequest) (y : Bytes) :
    Content (g.append y) code (g'.append y) := by
  induction h with
  | stop h => exact .stop (Progress.turn_append_stop h hcode y)
  | go h _ ih => exact .go (Progress.turn_append_go h y) (ih hcode)

/-- A call that waits goes on as the next one. -/
lemma append_more (h : Content g c₁ g₁) (hc : c₁ = .noRequest) {y : Bytes}
    (h' : Content (g₁.append y) c₂ g₂) : Content (g.append y) c₂ g₂ := by
  induction h with
  | stop h =>
    subst hc
    have hturn := Progress.turn_append_more h y
    cases h' with
    | stop h₁ => exact .stop (hturn.trans h₁)
    | go h₁ hrest => exact .go (hturn.trans h₁) hrest
  | go h _ ih => exact .go (Progress.turn_append_go h y) (ih hc h')

lemma waiting (h : Content g code g') (hcode : code = .noRequest) : g'.Waiting := by
  induction h with
  | stop h =>
    subst hcode
    exact Progress.waiting_of_turn h
  | go _ _ ih => exact ih hcode

end Content

/-! ### The calls after each chunk -/

namespace Parser

variable {s : Parser} {pad chunk : Bytes}

lemma shows_init : init.Shows (.start []) (List.replicate bufferSize 0) := by
  constructor <;> rfl

lemma Shows.recv (h : s.Shows g pad) (hlen : chunk.length ≤ pad.length) :
    ∃ s', s.recv chunk = some s' ∧ s'.Shows (g.append chunk) (pad.drop chunk.length) := by
  have hread : s.readIndex = (g.done ++ g.cur ++ g.rest).length := by
    rw [h.readIndex]
    simp [add_assoc]
  have hfit : s.readIndex + chunk.length ≤ s.buffer.length := by
    rw [hread, h.buffer]
    simp only [List.length_append]
    omega
  refine ⟨_, if_pos hfit, ⟨?_, h.checkedIndex, ?_, h.startLine, h.checkState⟩⟩
  · dsimp only
    rw [h.buffer, hread, List.take_left', List.drop_length_add_append]
    · simp [Progress.append]
    · rfl
  · simp [h.readIndex, Progress.append, add_assoc]

lemma parseChunks_spec : ∀ (chunks : List Bytes) (g : Progress) (s : Parser) (pad : Bytes),
    s.Shows g pad → g.Valid → g.Waiting → chunks.flatten.length ≤ pad.length →
    ∃ code g' s' pad' y, parseChunks chunks s = some (code, s') ∧ s'.Shows g' pad' ∧
      Content (g.append chunks.flatten) code (g'.append y)
  | [], g, s, pad, h, _, hwait, _ => ⟨_, g, s, pad, [], rfl, h, by simpa using .stop hwait⟩
  | chunk :: chunks, g, s, pad, h, hv, hwait, hlen => by
    rw [List.flatten_cons, List.length_append] at hlen
    have hfit : chunk.length ≤ pad.length := by omega
    obtain ⟨s₁, hs₁, h₁⟩ := h.recv hfit
    have hv₁ : (g.append chunk).Valid := ⟨hv.plain, hv.last⟩
    obtain ⟨code, g', s', hs', hg', hv', h'⟩ := parseContent_spec h₁ hv₁
    rw [parseChunks, hs₁, List.flatten_cons, ← Progress.append_append]
    simp only [Option.bind_eq_bind, Option.bind_some, hs']
    split
    next hcode =>
      obtain ⟨code₂, g₂, s₂, pad₂, y, hs₂, h₂, hg₂⟩ := parseChunks_spec chunks g' s' _ h' hv'
        (hg'.waiting hcode) (by rw [List.length_drop]; omega)
      exact ⟨code₂, g₂, s₂, pad₂, y, hs₂, h₂, hg'.append_more hcode hg₂⟩
    next hcode => exact ⟨code, g', s', _, chunks.flatten, rfl, h', hg'.append hcode _⟩

/-- The parser has gone as far in the same way. -/
structure Agrees (s t : Parser) : Prop where
  checkState : s.checkState = t.checkState
  checkedIndex : s.checkedIndex = t.checkedIndex
  startLine : s.startLine = t.startLine
  buffer : s.buffer.take s.checkedIndex = t.buffer.take t.checkedIndex

lemma Shows.agrees {t : Parser} {pad' y : Bytes} (h : s.Shows g pad) (h' : t.Shows (g.append y) pad') :
    s.Agrees t := by
  have hchecked : s.checkedIndex = t.checkedIndex := h.checkedIndex.trans h'.checkedIndex.symm
  refine ⟨h.checkState.trans h'.checkState.symm, hchecked, h.startLine.trans h'.startLine.symm, ?_⟩
  have hlen : s.checkedIndex = (g.done ++ g.cur).length := by
    rw [h.checkedIndex, List.length_append]
  calc s.buffer.take s.checkedIndex
      = g.done ++ g.cur := by rw [hlen, h.buffer, List.append_assoc, List.take_left]
    _ = t.buffer.take t.checkedIndex := by
      rw [← hchecked, hlen, h'.buffer, List.append_assoc]
      exact List.take_left.symm

/-- A request may arrive in any pieces. -/
theorem parseChunks_eq_parseContent (chunks : List Bytes) (hlen : chunks.flatten.length ≤ bufferSize) :
    ∃ code s t, parseChunks chunks init = some (code, s) ∧
      (init.recv chunks.flatten).bind parseContent = some (code, t) ∧ s.Agrees t := by
  have hlen' : chunks.flatten.length ≤ (List.replicate bufferSize (0 : UInt8)).length := by
    rwa [List.length_replicate]
  have hv : (Progress.start []).Valid := .start []
  obtain ⟨code, g, s, pad, y, hs, h, hg⟩ := parseChunks_spec chunks _ _ _ shows_init hv
    Progress.waiting_start hlen'
  obtain ⟨t₁, ht₁, h₁⟩ := shows_init.recv hlen'
  obtain ⟨code', g', t, ht, hg', -, h'⟩ := parseContent_spec h₁ ⟨hv.plain, hv.last⟩
  obtain ⟨rfl, rfl⟩ := hg.unique hg'
  exact ⟨code, s, t, hs, by rw [ht₁, Option.bind_some, ht], h.agrees h'⟩

/-- A request in three pieces, one of them cut between CR and LF. -/
theorem parseChunks_eq_parseContent_three :
    ∃ code s t, parseChunks [ascii ['G', 'E', 'T', ' '], ascii ['/', '\r'], ascii ['\n']] init =
        some (code, s) ∧
      (init.recv (ascii ['G', 'E', 'T', ' ', '/', '\r', '\n'])).bind parseContent = some (code, t) ∧
      s.Agrees t :=
  parseChunks_eq_parseContent [ascii ['G', 'E', 'T', ' '], ascii ['/', '\r'], ascii ['\n']]
    (by decide)

end Parser

end LinuxServer.ParseHttp
