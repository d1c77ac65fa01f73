import LinuxServer.HttpConn.Bounds
import LinuxServer.HttpConn.Receiving

/-!
# The URL of a request

`parse_request_line` accepts a line when `m_url` points to a slash. The slash stays where it is: only CR
and LF are overwritten by `parse_line`, the headers are only read, and what is received later stands
behind it. So `do_request`, which is called behind the headers, finds a URL that begins with a slash.
-/

namespace LinuxServer.HttpConn

open Core
open ParseHttp (slash)

variable {s s' : HttpConn} {e : Event} {call : Call} {text : ℕ} {code : HttpCode}

/-- The text that `m_url` points to. -/
def urlText (s : HttpConn) : Bytes :=
  match s.url with
  | none => []
  | some p => cut (s.readBuf.drop p)

/-- In the state that follows a request line, `m_url` points to a slash. -/
structure Sound (s : HttpConn) : Prop where
  noContent : s.NoContent
  le : s.readIdx ≤ readBufferSize
  within : s.readIdx < readBufferSize → s.Within
  url : s.checkState = .header → ∃ p, s.url = some p ∧ s.readBuf[p]? = some slash

/-! ### The parsers -/

lemma parseRequestLine_slash (h : s.parseRequestLine text = some (code, s'))
    (hstate : s'.checkState ≠ s.checkState) : ∃ p, s'.url = some p ∧ s'.readBuf[p]? = some slash := by
  obtain ⟨-, ⟨-, hsame⟩ | ⟨-, hslash⟩⟩ := parseRequestLine_exits h
  · exact absurd hsame hstate
  · exact hslash

/-- A header line is only read. -/
lemma parseHeaders_same (h : s.parseHeaders text = some (code, s')) :
    s'.readBuf = s.readBuf ∧ s'.url = s.url := by
  rcases parseHeaders_exits h with ⟨-, -, rfl⟩ | ⟨-, linger, host, rfl⟩
  · exact ⟨rfl, rfl⟩
  · exact ⟨rfl, rfl⟩

lemma handLine_url (hs : s.checkState ≠ .content)
    (hurl : s.checkState = .header → ∃ p, s.url = some p ∧ s.readBuf[p]? = some slash)
    {ret : Option Returned} (h : s.handLine = some (ret, s')) (hstate : s'.checkState = .header) :
    ∃ p, s'.url = some p ∧ s'.readBuf[p]? = some slash := by
  rw [handLine] at h
  dsimp only at h
  split at h
  next hline =>
    obtain ⟨⟨code, s₁⟩, h₁, h⟩ := Option.bind_eq_some_iff.mp h
    cases h
    refine parseRequestLine_slash h₁ ?_
    rw [hstate, hline]
    decide
  next hheader =>
    obtain ⟨⟨code, s₁⟩, h₁, h⟩ := Option.bind_eq_some_iff.mp h
    cases h
    obtain ⟨hbuf, hsame⟩ := parseHeaders_same h₁
    rw [hbuf, hsame]
    exact hurl hheader
  next hcontent => exact absurd hcontent hs

/-! ### The steps -/

lemma sound_init : init.Sound where
  noContent := ⟨by decide, rfl⟩
  le := Nat.zero_le _
  within _ := within_init
  url := nofun

lemma Sound.append (h : s.Sound) {chunk : Bytes} (hroom : s.readIdx + chunk.length ≤ readBufferSize) :
    (s.append chunk).Sound := by
  refine ⟨⟨h.noContent.checkState, h.noContent.contentLength⟩, hroom,
    (Step.append hroom).within h.noContent h.within, fun hstate => ?_⟩
  obtain ⟨p, hp, hslash⟩ := h.url hstate
  refine ⟨p, hp, ?_⟩
  obtain ⟨hlength, -⟩ := List.getElem?_eq_some_iff.mp hslash
  rcases lt_or_ge s.readIdx readBufferSize with hlt | hfull
  · -- behind what was received there are NULs
    have hidx : p < s.readIdx := by
      by_contra hge
      have hp' : p < readBufferSize := (h.within hlt).length ▸ hlength
      cases ((h.within hlt).zero p (not_lt.mp hge) hp').symm.trans hslash
    have hfront : p < (s.readBuf.take s.readIdx).length := by
      rw [List.length_take]
      exact lt_min hidx hlength
    simp only [HttpConn.append]
    rw [List.append_assoc, List.getElem?_append_left hfront, List.getElem?_take_of_lt hidx, hslash]
  · have hnil : chunk = [] := List.length_eq_zero_iff.mp (by omega)
    rw [hnil, append_nil, hslash]

lemma Sound.processRead (h : s.Sound) (hcall : s.processRead = some call) : call.conn.Sound := by
  have hs : Step s (.processRead call) call.conn := .processRead hcall
  obtain ⟨status, readBuf, checkedIdx, hline, hcases⟩ := processRead_cases h.noContent.checkState hcall
  have hurl : s.checkState = .header → ∃ p, s.url = some p ∧ readBuf[p]? = some slash := by
    intro hstate
    obtain ⟨p, hp, hslash⟩ := h.url hstate
    refine ⟨p, hp, ?_⟩
    rcases parseLineLoop_bytes hline p with hsame | ⟨-, hcr | hlf⟩
    · exact hsame.trans hslash
    · cases hcr.symm.trans hslash
    · cases hlf.symm.trans hslash
  refine ⟨hs.noContent h.noContent, ?_, hs.within h.noContent h.within, ?_⟩
  · rcases hcases with ⟨-, rfl⟩ | ⟨-, ret, s', hhand, rfl⟩
    · exact h.le
    · exact (handLine_cases (s := { s with readBuf, checkedIdx }) h.noContent.checkState
        hhand).1.readIdx.trans_le h.le
  · rcases hcases with ⟨-, rfl⟩ | ⟨-, ret, s', hhand, rfl⟩
    · exact hurl
    · exact handLine_url (s := { s with readBuf, checkedIdx }) h.noContent.checkState hurl hhand

/-! ### The call of `do_request` -/

/-- `do_request` is called behind the headers. -/
lemma handLine_doRequest (hs : s.checkState ≠ .content)
    (h : s.handLine = some (some .doRequest, s')) : s'.checkState = .header := by
  rw [handLine] at h
  dsimp only at h
  split at h
  next =>
    obtain ⟨⟨code, s₁⟩, -, h⟩ := Option.bind_eq_some_iff.mp h
    dsimp only at h
    split at h
    · cases h
    · cases h
  next hheader =>
    obtain ⟨⟨code, s₁⟩, hparse, h⟩ := Option.bind_eq_some_iff.mp h
    dsimp only at h
    split at h
    next => cases h
    next =>
      split at h
      next hget =>
        cases h
        rcases (parseHeaders_cases hparse).2 with ⟨-, hstate⟩ | ⟨-, hcode, -⟩
        · exact hstate.trans hheader
        · cases hcode.symm.trans hget
      next => cases h
  next hcontent => exact absurd hcontent hs

lemma processRead_header (hs : s.checkState ≠ .content) (hcall : s.processRead = some call)
    (hreturned : call.returned = some .doRequest) : call.conn.checkState = .header := by
  obtain ⟨status, readBuf, checkedIdx, -, ⟨-, rfl⟩ | ⟨-, ret, s', hhand, rfl⟩⟩ :=
    processRead_cases hs hcall
  · cases hreturned
  · cases ret with
    | none => cases hreturned
    | some r =>
      obtain rfl : r = .doRequest := Option.some.inj hreturned
      exact handLine_doRequest (s := { s with readBuf, checkedIdx }) hs hhand

/-- The URL that `do_request` is called with begins with a slash. -/
lemma Sound.urlText_head (h : s.Sound) (hstate : s.checkState = .header) :
    s.urlText.head? = some slash := by
  obtain ⟨p, hp, hslash⟩ := h.url hstate
  obtain ⟨hlt, hget⟩ := List.getElem?_eq_some_iff.mp hslash
  rw [urlText, hp]
  dsimp only
  rw [List.drop_eq_getElem_cons hlt, hget, cut_cons_of_ne (by decide), List.head?_cons]

end LinuxServer.HttpConn
