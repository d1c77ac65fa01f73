import LinuxServer.HttpConn.Writing

/-!
# Appending to the write buffer

`add_response` is called by functions that mostly do not look at what it returns. A text that does not
fit is cut off behind `m_write_idx`, where the next call writes over it, so that below `m_write_idx` there
are only the texts that fitted.
-/

namespace LinuxServer.HttpConn.Answering

open Core
open ParseHttp (slash)

/-- The bytes below `m_write_idx`. -/
def written (s : Answering) : Bytes := s.writeBuf.take s.writeIdx

/-- A call of `add_response`. -/
structure Call where
  before : Answering
  text : Bytes
  returned : Bool
  after : Answering

/-- The call of `add_response` for `text` that was made at `s`, by what it came to. -/
def Call.of (s : Answering) (text : Bytes) (result : Bool × Answering) : Call :=
  ⟨s, text, result.1, result.2⟩

/-- The text of a status line. -/
def statusLine (status : ℤ) (title : Bytes) : Bytes :=
  ascii "HTTP/1.1 ".toList ++ decimal status ++ ascii " ".toList ++ title ++ crlf

/-- The text of a `Connection` line. -/
def connectionLine (linger : Bool) : Bytes :=
  ascii "Connection: ".toList ++
    (if linger = true then ascii "keep-alive".toList else ascii "close".toList) ++ crlf

/-- A function is called that calls `add_response`, once or three times. In between a request is read. -/
inductive Adding (lengthLine : ℤ → Bytes) : Answering → List Call → Answering → Prop
  | addStatusLine (s : Answering) (status : ℤ) (title : Bytes) :
      Adding lengthLine s [.of s (statusLine status title) (s.addStatusLine status title)]
        (s.addStatusLine status title).2
  | addHeaders (s : Answering) (contentLen : ℤ) :
      Adding lengthLine s
        [.of s (lengthLine contentLen) (s.addContentLength lengthLine contentLen),
          .of (s.addContentLength lengthLine contentLen).2 (connectionLine s.linger)
            (s.addContentLength lengthLine contentLen).2.addLinger,
          .of (s.addContentLength lengthLine contentLen).2.addLinger.2 crlf
            (s.addContentLength lengthLine contentLen).2.addLinger.2.addBlankLine]
        (s.addHeaders lengthLine contentLen)
  | addLinger (s : Answering) :
      Adding lengthLine s [.of s (connectionLine s.linger) s.addLinger] s.addLinger.2
  | addBlankLine (s : Answering) : Adding lengthLine s [.of s crlf s.addBlankLine] s.addBlankLine.2
  | addContent (s : Answering) (content : Bytes) :
      Adding lengthLine s [.of s content (s.addContent content)] (s.addContent content).2
  | read (s : Answering) (conn : HttpConn) : Adding lengthLine s [] { s with toHttpConn := conn }

/-- The whole text is appended, or nothing is. -/
structure Call.Atomic (c : Call) : Prop where
  appended : c.returned = true →
    c.after.writeIdx = c.before.writeIdx + c.text.length ∧ c.after.written = c.before.written ++ c.text
  refused : c.returned = false →
    c.after.writeIdx = c.before.writeIdx ∧ c.after.written = c.before.written

/-- The index stays two bytes below the end of the buffer, which is not written beyond. -/
structure Fits (s : Answering) : Prop where
  length : s.writeBuf.length = writeBufferSize
  le : s.writeIdx ≤ writeBufferSize - 2

/-- The texts whose calls have returned true. -/
def accepted (calls : List Call) : Bytes := (calls.filter fun c => c.returned).flatMap fun c => c.text

variable {lengthLine : ℤ → Bytes} {s t : Answering} {calls : List Call} {text : Bytes}

/-! ### A call -/

lemma accepted_append (calls calls' : List Call) :
    accepted (calls ++ calls') = accepted calls ++ accepted calls' := by
  rw [accepted, List.filter_append, List.flatMap_append]
  rfl

/-- What `vsnprintf` leaves below the place that it prints at. -/
lemma take_vsnprintf {buf : Bytes} {p size : ℕ} (hp : p ≤ buf.length) :
    (vsnprintf buf p size text).take p = buf.take p := by
  rw [vsnprintf]
  split
  · rfl
  · rw [List.append_assoc, List.take_append_of_le_length (by rw [List.length_take]; omega),
      List.take_take, min_self]

/-- A text that is not cut off. -/
lemma take_vsnprintf_of_lt {buf : Bytes} {p size : ℕ} (hp : p ≤ buf.length) (hlt : text.length < size) :
    (vsnprintf buf p size text).take (p + text.length) = buf.take p ++ text := by
  have hpos : size ≠ 0 := by omega
  have hall : text.take (size - 1) = text := List.take_of_length_le (by omega)
  rw [vsnprintf, if_neg hpos]
  dsimp only
  rw [hall, List.append_assoc, List.append_assoc, ← List.append_assoc]
  refine List.take_left' ?_
  rw [List.length_append, List.length_take, Nat.min_eq_left hp]

/-- A call of `add_response`, for every level that the buffer is filled to. -/
lemma Fits.addResponse (h : s.Fits) (text : Bytes) :
    (Call.of s text (s.addResponse text)).Atomic ∧ (s.addResponse text).2.Fits := by
  have hsize : writeBufferSize = 2048 := rfl
  have hle := h.le
  have hp : s.writeIdx ≤ s.writeBuf.length := by rw [h.length]; omega
  have hroom : ¬ writeBufferSize ≤ s.writeIdx := by omega
  have hlength : (vsnprintf s.writeBuf s.writeIdx (writeBufferSize - 1 - s.writeIdx) text).length =
      writeBufferSize := by
    rw [length_vsnprintf (by rw [h.length]; omega), h.length]
  rw [Answering.addResponse, if_neg hroom]
  dsimp only
  split
  next hlong => exact ⟨⟨Bool.noConfusion, fun _ => ⟨rfl, take_vsnprintf hp⟩⟩, hlength, hle⟩
  next hshort =>
    have hlt : text.length < writeBufferSize - 1 - s.writeIdx := by omega
    exact ⟨⟨fun _ => ⟨rfl, take_vsnprintf_of_lt hp hlt⟩, Bool.noConfusion⟩, hlength, by dsimp only; omega⟩

/-! ### The functions that call it -/

/-- What a call adds to what is below the index. -/
lemma Call.Atomic.written {c : Call} (h : c.Atomic) :
    c.after.written = c.before.written ++ accepted [c] := by
  cases hreturned : c.returned with
  | true =>
    rw [(h.appended hreturned).2, accepted, List.filter_cons_of_pos hreturned]
    simp only [List.filter_nil, List.flatMap_cons, List.flatMap_nil, List.append_nil]
  | false =>
    rw [(h.refused hreturned).2, accepted, List.filter_cons_of_neg (by simp [hreturned]),
      List.filter_nil, List.flatMap_nil, List.append_nil]

/-- What the calls of a function keep and come to. -/
structure Adds (s : Answering) (calls : List Call) (t : Answering) : Prop where
  atomic : ∀ c ∈ calls, c.Atomic ∧ c.after.Fits
  fits : t.Fits
  written : t.written = s.written ++ accepted calls

lemma Fits.adds_nil (h : t.Fits) (hwritten : t.written = s.written) : s.Adds [] t := by
  refine ⟨List.forall_mem_nil _, h, ?_⟩
  rw [hwritten, accepted, List.filter_nil, List.flatMap_nil, List.append_nil]

lemma Fits.adds_one (h : s.Fits) (text : Bytes) :
    s.Adds [.of s text (s.addResponse text)] (s.addResponse text).2 := by
  obtain ⟨hatomic, hfits⟩ := h.addResponse text
  exact ⟨List.forall_mem_singleton.mpr ⟨hatomic, hfits⟩, hfits, hatomic.written⟩

lemma Adds.trans {calls' : List Call} {u : Answering} (h : s.Adds calls t) (h' : t.Adds calls' u) :
    s.Adds (calls ++ calls') u := by
  refine ⟨List.forall_mem_append.mpr ⟨h.atomic, h'.atomic⟩, h'.fits, ?_⟩
  rw [h'.written, h.written, accepted_append, List.append_assoc]

lemma linger_addResponse (s : Answering) (text : Bytes) : (s.addResponse text).2.linger = s.linger := by
  obtain ⟨_, _, h⟩ := addResponse_eq s text
  rw [h]

lemma fits_init (s : Answering) : s.init.Fits := ⟨List.length_replicate, Nat.zero_le _⟩

lemma Fits.adding (h : s.Fits) (hadding : Adding lengthLine s calls t) : s.Adds calls t := by
  cases hadding with
  | addStatusLine status title => exact h.adds_one _
  | addHeaders contentLen =>
    have hlength : s.Adds _ (s.addContentLength lengthLine contentLen).2 := h.adds_one _
    have hlinger : Adds _ [_] (s.addContentLength lengthLine contentLen).2.addLinger.2 :=
      hlength.fits.adds_one _
    have hblank := hlinger.fits.adds_one crlf
    have hsame : (s.addContentLength lengthLine contentLen).2.linger = s.linger :=
      linger_addResponse s _
    rw [← hsame]
    exact hlength.trans (hlinger.trans hblank)
  | addLinger => exact h.adds_one _
  | addBlankLine => exact h.adds_one _
  | addContent content => exact h.adds_one _
  | read conn =>
    have hfits : Fits { s with toHttpConn := conn } := ⟨h.length, h.le⟩
    exact hfits.adds_nil rfl

/-! ### Runs -/

/-- In every run from `init` on, every call of `add_response` appends its whole text or nothing, the index
stays two bytes below the end of the buffer, and below the index are the texts of the calls that have
returned true. -/
theorem run_adds {callss : List (List Call)} (hrun : Trace (Adding lengthLine) s.init callss t) :
    (∀ c ∈ callss.flatten, c.Atomic ∧ c.after.Fits) ∧ t.Fits ∧ t.written = accepted callss.flatten := by
  have hinit : s.init.Adds [] s.init := s.fits_init.adds_nil rfl
  have hstep : ∀ (u : Answering) callss calls u', s.init.Adds callss.flatten u →
      Adding lengthLine u calls u' → s.init.Adds (callss ++ [calls]).flatten u' := by
    intro u callss calls u' h hadding
    rw [List.flatten_append, List.flatten_singleton]
    exact h.trans (h.fits.adding hadding)
  have hadds : s.init.Adds ([] ++ callss).flatten t :=
    hrun.history (I := fun u callss => s.init.Adds callss.flatten u) hstep hinit
  exact ⟨hadds.atomic, hadds.fits, hadds.written⟩

/-- A text longer than the buffer behind a status line. -/
theorem run_adds_long :
    let s := found.init.addStatusLine 200 ok200Title
    let content := List.replicate 3000 slash
    let calls := [[Call.of found.init (statusLine 200 ok200Title) s],
      [Call.of s.2 content (s.2.addContent content)]]
    (∀ c ∈ calls.flatten, c.Atomic ∧ c.after.Fits) ∧ (s.2.addContent content).2.Fits ∧
      (s.2.addContent content).2.written = accepted calls.flatten :=
  have hstatus : Adding lengthLine _ _ _ := .addStatusLine found.init 200 ok200Title
  run_adds (.cons hstatus (.cons (.addContent _ _) (.nil _)))

end LinuxServer.HttpConn.Answering
