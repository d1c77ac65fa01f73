import LinuxServer.HttpConn.Headers
import LinuxServer.HttpConn.RequestLine

/-!
# The bounds of the read buffer

As long as the read buffer is not full, NULs stand behind what was received, and they end every text in
it. The parsers stop there at the latest, also on a line that is not finished, and the seven bytes
that `parse_request_line` skips end before the NUL behind `HTTP/1.1`. A parser writes NULs at
bytes that it has read: where it has found a blank, and over CR and LF.
-/

namespace LinuxServer.HttpConn

open Core

/-- The indices are in order, NULs stand behind what was received, and no pointer leads further than to
the first of them. -/
structure Within (s : HttpConn) : Prop where
  length : s.readBuf.length = readBufferSize
  start_le : s.startLine ≤ s.checkedIdx
  checked_le : s.checkedIdx ≤ s.readIdx
  zero : ∀ i, s.readIdx ≤ i → i < readBufferSize → s.readBuf[i]? = some 0
  url : ∀ p, s.url = some p → p ≤ s.readIdx
  version : ∀ p, s.version = some p → p ≤ s.readIdx
  host : ∀ p, s.host = some p → p ≤ s.readIdx

variable {s s' : HttpConn} {p text : ℕ} {t : Bytes} {code : HttpCode} {path : Option ℕ} {e : Event}
  {es : List Event}

lemma within_init : init.Within where
  length := List.length_replicate
  start_le := le_rfl
  checked_le := le_rfl
  zero _ _ hi := List.getElem?_replicate_of_lt hi
  url := nofun
  version := nofun
  host := nofun

/-- Every text ends at the first byte that was not received, if not before. -/
lemma Within.exists_text (h : s.Within) (hlt : s.readIdx < readBufferSize) (hp : p ≤ s.readIdx) :
    ∃ t, textAt s.readBuf p = some t ∧ p + t.length ≤ s.readIdx :=
  exists_textAt hp (h.zero _ le_rfl hlt)

lemma Within.append (h : s.Within) {chunk : Bytes} (hroom : s.readIdx + chunk.length ≤ readBufferSize) :
    (s.append chunk).Within where
  length := by
    have hlength := h.length
    simp only [HttpConn.append, List.length_append, List.length_take, List.length_drop]
    omega
  start_le := h.start_le
  checked_le := h.checked_le.trans (Nat.le_add_right _ _)
  zero i hi hi' := by
    have hlength := h.length
    have hfront : (s.readBuf.take s.readIdx ++ chunk).length = s.readIdx + chunk.length := by
      rw [List.length_append, List.length_take_of_le (by omega)]
    have hi'' : s.readIdx + chunk.length ≤ i := hi
    simp only [HttpConn.append]
    rw [List.getElem?_append_right (hfront.trans_le hi''), hfront, List.getElem?_drop,
      Nat.add_sub_cancel' hi'']
    exact h.zero i (by omega) hi'
  url p hp := (h.url p hp).trans (Nat.le_add_right _ _)
  version p hp := (h.version p hp).trans (Nat.le_add_right _ _)
  host p hp := (h.host p hp).trans (Nat.le_add_right _ _)

/-! ### A call of `process_read` -/

lemma Within.parseLine (h : s.Within) (hlt : s.readIdx < readBufferSize) :
    ∃ status readBuf checkedIdx,
      LinuxServer.parseLine s.readBuf s.checkedIdx s.readIdx = some (status, readBuf, checkedIdx) ∧
        Within { s with readBuf, checkedIdx } := by
  have hlength : s.readIdx ≤ s.readBuf.length := by
    rw [h.length]
    exact hlt.le
  obtain ⟨status, readBuf, checkedIdx, hline, hw⟩ := parseLine_within h.checked_le hlength
  refine ⟨status, readBuf, checkedIdx, hline, hw.length.trans h.length, h.start_le.trans hw.le,
    hw.le_read, fun i hi hi' => ?_, h.url, h.version, h.host⟩
  rcases hw.bytes i with hsame | ⟨hzero, -⟩
  · exact hsame.trans (h.zero i hi hi')
  · exact hzero

/-- A parser that works on a text, and moves none of the indices. -/
lemma Within.parsed (h : s.Within) (hkeeps : s.Keeps s') {hi : ℕ} (hle : hi ≤ s.readIdx)
    (hp : s.Parsed text hi path code s') : s'.Within where
  length := hp.length.trans h.length
  start_le := by
    rw [hkeeps.startLine, hkeeps.checkedIdx]
    exact h.start_le
  checked_le := by
    rw [hkeeps.checkedIdx, hkeeps.readIdx]
    exact h.checked_le
  zero i hi hi' := by
    rw [hkeeps.readIdx] at hi
    rcases hp.bytes i with hsame | ⟨hzero, -⟩
    · exact hsame.trans (h.zero i hi hi')
    · exact hzero
  url p hurl := by
    rw [hkeeps.readIdx]
    exact (hp.url p hurl).2.trans hle
  version p hversion := by
    rw [hkeeps.readIdx]
    rcases hp.version with hsame | hrange
    · exact h.version p (hsame ▸ hversion)
    · exact (hrange p hversion).2.trans hle
  host p hhost := by
    rw [hkeeps.readIdx]
    exact h.host p (hp.host ▸ hhost)

lemma Within.parseRequestLine (h : s.Within) (hlt : s.readIdx < readBufferSize)
    (htext : text ≤ s.readIdx) :
    ∃ code s', s.parseRequestLine text = some (code, s') ∧ s'.Within := by
  obtain ⟨t, ht, hle⟩ := h.exists_text hlt htext
  obtain ⟨code, s', hs, hp⟩ := parseRequestLine_spec ht
  exact ⟨code, s', hs, h.parsed (parseRequestLine_cases hs).1 hle hp⟩

lemma Within.parseHeaders (h : s.Within) (hlt : s.readIdx < readBufferSize)
    (htext : text ≤ s.readIdx) :
    ∃ code s', s.parseHeaders text = some (code, s') ∧ s'.Within := by
  obtain ⟨t, ht, hle⟩ := h.exists_text hlt htext
  have hspec := parseHeaders_spec ht
  by_cases hnil : t = []
  · rw [if_pos hnil] at hspec
    by_cases hcontent : s.contentLength ≠ 0
    · rw [if_pos hcontent] at hspec
      exact ⟨_, _, hspec, h.length, h.start_le, h.checked_le, h.zero, h.url, h.version, h.host⟩
    · rw [if_neg hcontent] at hspec
      exact ⟨_, _, hspec, h⟩
  · rw [if_neg hnil] at hspec
    by_cases hletter : Named letterC t
    · rw [if_pos hletter] at hspec
      refine ⟨_, _, hspec, ?_⟩
      split
      · exact ⟨h.length, h.start_le, h.checked_le, h.zero, h.url, h.version, h.host⟩
      · exact h
    · rw [if_neg hletter] at hspec
      by_cases hhost : Named hostName t
      · rw [if_pos hhost] at hspec
        refine ⟨_, _, hspec, h.length, h.start_le, h.checked_le, h.zero, h.url, h.version, ?_⟩
        rintro p ⟨rfl⟩
        have hlength := length_of_named hhost
        have hspn := strspn_le (t.drop 5)
        rw [List.length_drop] at hspn
        have h5 : hostName.length = 5 := rfl
        dsimp only
        omega
      · rw [if_neg hhost] at hspec
        exact ⟨_, _, hspec, h⟩

lemma Within.handLine (h : s.Within) (hlt : s.readIdx < readBufferSize)
    (hstate : s.checkState ≠ .content) : ∃ ret s', s.handLine = some (ret, s') ∧ s'.Within := by
  have htext := h.start_le.trans h.checked_le
  have hs : Within { s with startLine := s.checkedIdx } :=
    ⟨h.length, le_rfl, h.checked_le, h.zero, h.url, h.version, h.host⟩
  rw [HttpConn.handLine]
  dsimp only
  split
  next =>
    obtain ⟨code, s', hparse, hs'⟩ := hs.parseRequestLine hlt htext
    exact ⟨_, s', by rw [hparse]; rfl, hs'⟩
  next =>
    obtain ⟨code, s', hparse, hs'⟩ := hs.parseHeaders hlt htext
    exact ⟨_, s', by rw [hparse]; rfl, hs'⟩
  next hcontent => exact absurd hcontent hstate

/-- A call works inside of the read buffer. -/
lemma Within.processRead (h : s.Within) (hlt : s.readIdx < readBufferSize)
    (hstate : s.checkState ≠ .content) : ∃ call, s.processRead = some call ∧ call.conn.Within := by
  obtain ⟨status, readBuf, checkedIdx, hline, hw⟩ := h.parseLine hlt
  obtain ⟨ret, s', hhand, hs'⟩ := hw.handLine hlt hstate
  rw [HttpConn.processRead, loopCondition, if_neg fun hand => hstate hand.1, hline]
  simp only [Option.bind_eq_bind, Option.bind_some]
  split
  next => exact ⟨_, by rw [hhand]; rfl, hs'⟩
  next => exact ⟨_, rfl, hw⟩

lemma Step.readIdx_le (hs : Step s e s') (hcontent : s.NoContent) : s.readIdx ≤ s'.readIdx := by
  cases hs with
  | append _ => exact Nat.le_add_right _ _
  | processRead hcall =>
    obtain ⟨status, readBuf, checkedIdx, -, ⟨-, rfl⟩ | ⟨-, ret, s₁, hhand, rfl⟩⟩ :=
      processRead_cases hcontent.checkState hcall
    · exact le_rfl
    · have hkeeps := (handLine_cases (s := { s with readBuf, checkedIdx }) hcontent.checkState hhand).1
      exact hkeeps.readIdx.ge

lemma Step.within (hs : Step s e s') (hcontent : s.NoContent)
    (hwithin : s.readIdx < readBufferSize → s.Within) (hlt : s'.readIdx < readBufferSize) : s'.Within := by
  have hlt' : s.readIdx < readBufferSize := (hs.readIdx_le hcontent).trans_lt hlt
  cases hs with
  | append hroom => exact (hwithin hlt').append hroom
  | processRead hcall =>
    obtain ⟨call, hcall', hw⟩ := (hwithin hlt').processRead hlt' hcontent.checkState
    cases hcall.symm.trans hcall'
    exact hw

/-! ### Runs -/

/-- In every run, as long as the read buffer is not full, the indices and pointers are inside of what was
received and the NUL behind it, and `process_read` works inside of the buffer. -/
theorem run_within (hrun : Trace Step init es s) (hlt : s.readIdx < readBufferSize) :
    s.Within ∧ ∃ call, s.processRead = some call ∧ call.conn.Within := by
  have hstep : ∀ (s : HttpConn) e s', s.NoContent ∧ (s.readIdx < readBufferSize → s.Within) →
      Step s e s' → s'.NoContent ∧ (s'.readIdx < readBufferSize → s'.Within) :=
    fun s e s' h hs => ⟨hs.noContent h.1, hs.within h.1 h.2⟩
  obtain ⟨hcontent, hwithin⟩ := hrun.invariant
    (I := fun s : HttpConn => s.NoContent ∧ (s.readIdx < readBufferSize → s.Within)) hstep
    ⟨⟨by decide, rfl⟩, fun _ => within_init⟩
  exact ⟨hwithin hlt, (hwithin hlt).processRead hlt hcontent.checkState⟩

/-- A line of which the seven bytes behind the beginning of the URL end in the version. -/
theorem run_within_getSlash : (init.append getSlash).Within ∧
    ∃ call, (init.append getSlash).processRead = some call ∧ call.conn.Within :=
  run_within (.cons (.append (by decide)) (.nil _)) (by decide)

end LinuxServer.HttpConn
