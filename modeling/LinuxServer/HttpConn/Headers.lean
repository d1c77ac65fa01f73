import LinuxServer.HttpConn.Basic

/-!
# The header lines in `http_conn`

What `parse_headers` does at a text in the read buffer. It compares one byte with `Connection:` and
skips one, so that it takes lines like `c keep-alive` for the ones with this name, and does not see
`keep-alive` behind the name itself. `Host:` is compared in full.
-/

namespace LinuxServer.HttpConn

open Core

/-- The line begins with the name, in any case. -/
def Named (name t : Bytes) : Prop := caseEqN name.length t name = true

instance (name t : Bytes) : Decidable (Named name t) := inferInstanceAs (Decidable (_ = _))

/-- What stands behind the name and the blanks that follow it. -/
def value (name t : Bytes) : Bytes := (t.drop name.length).dropWhile isBlank

/-- `"C"` -/
def letterC : Bytes := ascii ['C']

/-- The name and `keep-alive` behind it, in any case. -/
def Keeping (name t : Bytes) : Prop := Named name t ∧ caseEq (value name t) keepAlive = true

instance (name t : Bytes) : Decidable (Keeping name t) := inferInstanceAs (Decidable (_ ∧ _))

/-- A line that is handed to `parse_headers`: what is in the read buffer then, and where the line
begins. -/
structure HeaderLine where
  buf : Bytes
  place : ℕ
  text : Bytes
  textAt : Core.textAt buf place = some text

/-- The calls of `parse_headers` for some lines, one after the other. -/
def parseLines (s : HttpConn) : List HeaderLine → Option HttpConn
  | [] => some s
  | l :: ls => do
    let (_, s) ← parseHeaders { s with readBuf := l.buf } l.place
    s.parseLines ls

/-- The last of the lines with the name `Host:`. -/
def lastHost (ls : List HeaderLine) : Option HeaderLine :=
  (ls.filter fun l => Named hostName l.text).getLast?

/-- What the lines of a header are to leave in `m_linger` and `m_host`. -/
structure Heads (ls : List HeaderLine) (s : HttpConn) : Prop where
  linger : s.linger = true ↔ ∃ l ∈ ls, Keeping connection l.text
  host : ∀ l, lastHost ls = some l →
    ∃ p, s.host = some p ∧ textAt l.buf p = some (value hostName l.text)
  noHost : lastHost ls = none → s.host = none
  other : ∀ front l back s₁ s₂, ls = front ++ l :: back → ¬ Named connection l.text →
    ¬ Named hostName l.text → init.parseLines front = some s₁ →
      init.parseLines (front ++ [l]) = some s₂ → s₂.linger = s₁.linger ∧ s₂.host = s₁.host

variable {s : HttpConn} {text : ℕ} {t name : Bytes} {l : HeaderLine} {ls : List HeaderLine}

/-- A line is as long as its name. -/
lemma length_of_named (h : Named name t) : name.length ≤ t.length := by
  have heq := congrArg List.length (beq_iff_eq.mp h)
  rw [List.length_map, List.length_map, List.length_take, List.length_take, min_self] at heq
  omega

/-- `parse_headers` at a text. -/
theorem parseHeaders_spec (ht : textAt s.readBuf text = some t) :
    s.parseHeaders text = some (if t = [] then
        if s.contentLength ≠ 0 then (.noRequest, { s with checkState := .content })
        else (.getRequest, s)
      else if Named letterC t then
        (.noRequest, if Keeping letterC t then { s with linger := true } else s)
      else if Named hostName t then
        (.noRequest, { s with host := some (text + 5 + strspn (t.drop 5)) })
      else (.noRequest, s)) := by
  have hzero : t.headD 0 = 0 ↔ t = [] := by
    have hnot := (textAt_eq_some.mp ht).1
    cases t with
    | nil => simp
    | cons c cs =>
      have hc : c ≠ 0 := fun heq => hnot (heq ▸ List.mem_cons_self)
      simp [hc]
  simp only [parseHeaders, getElem?_textAt ht, Option.bind_eq_bind, Option.bind_some, hzero]
  by_cases hnil : t = []
  · rw [if_pos hnil, if_pos hnil]
    split <;> rfl
  · have hpos : 1 ≤ t.length := List.length_pos_iff.mpr hnil
    have hletter : caseEqNAt 1 connection s.readBuf text = some (decide (Named letterC t)) := by
      rw [caseEqNAt_textAt ht (by decide)]
      exact congrArg some Bool.decide_eq_true.symm
    have hhost : caseEqNAt 5 hostName s.readBuf text = some (decide (Named hostName t)) := by
      rw [caseEqNAt_textAt ht (by decide)]
      exact congrArg some Bool.decide_eq_true.symm
    rw [if_neg hnil, if_neg hnil, hletter, Option.bind_some, hhost, Option.bind_some]
    by_cases hc : Named letterC t
    · have hrest := textAt_drop ht hpos
      have hvalue := textAt_drop hrest (strspn_le _)
      rw [drop_strspn] at hvalue
      simp only [decide_eq_true hc, if_pos, strspnAt_textAt hrest, Option.bind_some,
        caseEqAt_textAt hvalue (by decide : (0 : UInt8) ∉ keepAlive)]
      simp only [Keeping, hc, true_and]
      rfl
    · by_cases hn : Named hostName t
      · have hlength : 5 ≤ t.length := length_of_named hn
        have hrest := textAt_drop ht hlength
        simp [hc, hn, strspnAt_textAt hrest]
      · simp [hc, hn, ht]

/-! ### The lines one after the other -/

lemma named_cons {d : UInt8} : Named (d :: name) t ↔
    ∃ c cs, t = c :: cs ∧ toLower c = toLower d ∧ Named name cs := by
  cases t with
  | nil => simp [Named, caseEqN, caseEq]
  | cons c cs => simp [Named, caseEqN, caseEq]

/-- A line with a `c` in front has not the name `Host:`. -/
lemma not_named_hostName (h : Named letterC t) : ¬ Named hostName t := by
  intro hhost
  obtain ⟨c, cs, rfl, hc, -⟩ := named_cons.mp h
  obtain ⟨c', cs', heq, hc', -⟩ := named_cons.mp hhost
  cases heq
  exact absurd (hc.symm.trans hc') (by decide)

/-- A line with a `c` and `keep-alive` has not the name `Connection:`. -/
lemma not_named_connection (h : Keeping letterC t) : ¬ Named connection t := by
  intro hconn
  obtain ⟨c, cs, rfl, -, hrest⟩ := named_cons.mp hconn
  obtain ⟨d, ds, rfl, hd, -⟩ := named_cons.mp hrest
  have hblank : isBlank d = false := by
    rw [← isBlank_toLower, hd]
    decide
  have hvalue : value letterC (c :: d :: ds) = d :: ds := List.dropWhile_cons_of_neg (by simp [hblank])
  have hkeep := h.2
  rw [hvalue] at hkeep
  -- the second letter is an `o`, and not the `k` of `keep-alive`
  have hk : toLower d = toLower 107 := (List.cons.inj (beq_iff_eq.mp hkeep)).1
  exact absurd (hd.symm.trans hk) (by decide)

/-- What a line leaves when no content is expected. -/
lemma parseHeaders_line (hs : s.contentLength = 0) (l : HeaderLine) :
    ∃ code s', parseHeaders { s with readBuf := l.buf } l.place = some (code, s') ∧
      s'.contentLength = 0 ∧ (s'.linger = true ↔ s.linger = true ∨ Keeping letterC l.text) ∧
      s'.host = if Named hostName l.text then some (l.place + 5 + strspn (l.text.drop 5)) else s.host := by
  have hspec := parseHeaders_spec (s := { s with readBuf := l.buf }) l.textAt
  by_cases hnil : l.text = []
  · rw [if_pos hnil, if_neg (not_not.mpr hs)] at hspec
    have hkeep : ¬ Keeping letterC l.text := by
      rw [hnil]
      decide
    have hhost : ¬ Named hostName l.text := by
      rw [hnil]
      decide
    refine ⟨_, _, hspec, hs, ?_, ?_⟩
    · simp [hkeep]
    · rw [if_neg hhost]
  · rw [if_neg hnil] at hspec
    by_cases hc : Named letterC l.text
    · rw [if_pos hc] at hspec
      rw [if_neg (not_named_hostName hc)]
      by_cases hkeep : Keeping letterC l.text
      · rw [if_pos hkeep] at hspec
        exact ⟨_, _, hspec, hs, by simp [hkeep], rfl⟩
      · rw [if_neg hkeep] at hspec
        exact ⟨_, _, hspec, hs, by simp [hkeep], rfl⟩
    · have hkeep : ¬ Keeping letterC l.text := fun h => hc h.1
      rw [if_neg hc] at hspec
      by_cases hn : Named hostName l.text
      · rw [if_pos hn] at hspec ⊢
        exact ⟨_, _, hspec, hs, by simp [hkeep], rfl⟩
      · rw [if_neg hn] at hspec ⊢
        exact ⟨_, _, hspec, hs, by simp [hkeep], rfl⟩

lemma parseLines_append (s : HttpConn) (ls ls' : List HeaderLine) :
    s.parseLines (ls ++ ls') = (s.parseLines ls).bind fun s => s.parseLines ls' := by
  induction ls generalizing s with
  | nil => rfl
  | cons l ls ih =>
    rw [List.cons_append, parseLines, parseLines, Option.bind_eq_bind, Option.bind_assoc]
    apply Option.bind_congr
    rintro ⟨code, s₁⟩ -
    exact ih s₁

/-- The pointer to the value of a `Host:` line. -/
def HeaderLine.hostPlace (l : HeaderLine) : ℕ := l.place + 5 + strspn (l.text.drop 5)

lemma lastHost_cons (l : HeaderLine) (ls : List HeaderLine) : lastHost (l :: ls) =
    (lastHost ls).or (if Named hostName l.text then some l else none) := by
  rw [lastHost, lastHost, List.filter_cons]
  by_cases hn : Named hostName l.text
  · rw [if_pos (decide_eq_true hn), if_pos hn, List.getLast?_cons]
    cases (ls.filter fun l => Named hostName l.text).getLast? <;> rfl
  · rw [if_neg (by simpa using hn), if_neg hn, Option.or_none]

/-- What lines leave when no content is expected. -/
lemma parseLines_spec (hs : s.contentLength = 0) (ls : List HeaderLine) :
    ∃ s', s.parseLines ls = some s' ∧ s'.contentLength = 0 ∧
      (s'.linger = true ↔ s.linger = true ∨ ∃ l ∈ ls, Keeping letterC l.text) ∧
      s'.host = ((lastHost ls).map HeaderLine.hostPlace).or s.host := by
  induction ls generalizing s with
  | nil => exact ⟨s, rfl, hs, by simp, rfl⟩
  | cons l ls ih =>
    obtain ⟨code, s₁, h₁, hs₁, hlinger, hhost⟩ := parseHeaders_line hs l
    obtain ⟨s', h', hs', hlinger', hhost'⟩ := ih hs₁
    refine ⟨s', ?_, hs', ?_, ?_⟩
    · rw [parseLines, h₁]
      exact h'
    · rw [hlinger', hlinger, List.exists_mem_cons_iff, or_assoc]
    · rw [hhost', hhost, lastHost_cons]
      cases lastHost ls with
      | some l' => rfl
      | none =>
        by_cases hn : Named hostName l.text
        · simp [hn, HeaderLine.hostPlace]
        · simp [hn]

lemma textAt_hostPlace (h : Named hostName l.text) :
    textAt l.buf l.hostPlace = some (value hostName l.text) := by
  have hlength : 5 ≤ l.text.length := length_of_named h
  have hvalue := textAt_drop (textAt_drop l.textAt hlength) (strspn_le _)
  rw [drop_strspn] at hvalue
  exact hvalue

/-- The first line with a `c` and `keep-alive` changes `m_linger`, which it must not. -/
lemma Heads.not_keeping {s : HttpConn} (h : Heads ls s) (hl : l ∈ ls) : ¬ Keeping letterC l.text := by
  intro hkeep
  have hfirst : (ls.find? fun l => Keeping letterC l.text).isSome = true := by
    rw [List.find?_isSome]
    exact ⟨l, hl, decide_eq_true hkeep⟩
  obtain ⟨l₁, hl₁⟩ := Option.isSome_iff_exists.mp hfirst
  obtain ⟨hkeep₁, front, back, hls, hfront⟩ := List.find?_eq_some_iff_append.mp hl₁
  have hkeep₁ : Keeping letterC l₁.text := of_decide_eq_true hkeep₁
  obtain ⟨s₁, hs₁, -, hlinger₁, -⟩ := parseLines_spec (s := init) rfl front
  obtain ⟨s₂, hs₂, -, hlinger₂, -⟩ := parseLines_spec (s := init) rfl (front ++ [l₁])
  have hsame := (h.other front l₁ back s₁ s₂ hls (not_named_connection hkeep₁)
    (not_named_hostName hkeep₁.1) hs₁ hs₂).1
  have htrue : s₂.linger = true := hlinger₂.mpr (.inr ⟨l₁, by simp, hkeep₁⟩)
  rw [hsame, hlinger₁] at htrue
  rcases htrue with hinit | ⟨l₂, hl₂, hkeep₂⟩
  · cases hinit
  · have hnot := hfront l₂ hl₂
    simp [hkeep₂] at hnot

/-- The lines of a header leave what they are to leave if and only if none of them keeps the connection
alive: not with the name `Connection:`, which is not seen, and not with the letter alone, which is taken
for it. -/
theorem parseLines_heads_iff (ls : List HeaderLine) :
    (∃ s, init.parseLines ls = some s ∧ Heads ls s) ↔
      ∀ l ∈ ls, ¬ Keeping connection l.text ∧ ¬ Keeping letterC l.text := by
  obtain ⟨s, hs, -, hlinger, hhost⟩ := parseLines_spec (s := init) rfl ls
  have hinit : init.linger ≠ true := nofun
  rw [or_iff_right hinit] at hlinger
  constructor
  · rintro ⟨_, hs₁, hheads⟩ l hl
    cases hs.symm.trans hs₁
    refine ⟨fun hconn => ?_, hheads.not_keeping hl⟩
    obtain ⟨l', hl', hkeep⟩ := hlinger.mp (hheads.linger.mpr ⟨l, hl, hconn⟩)
    exact hheads.not_keeping hl' hkeep
  · intro hnone
    have hlinger' : s.linger ≠ true := by
      intro htrue
      obtain ⟨l, hl, hkeep⟩ := hlinger.mp htrue
      exact (hnone l hl).2 hkeep
    refine ⟨s, hs, ⟨?_, fun l hl => ?_, fun hno => ?_, ?_⟩⟩
    · exact iff_of_false hlinger' fun ⟨l, hl, hconn⟩ => (hnone l hl).1 hconn
    · have hnamed : Named hostName l.text := by
        have hmem := List.mem_of_getLast? hl
        simpa using (List.mem_filter.mp hmem).2
      rw [hl] at hhost
      exact ⟨_, hhost, textAt_hostPlace hnamed⟩
    · rw [hno] at hhost
      exact hhost
    · intro front l back s₁ s₂ hls _ hnamed hs₁ hs₂
      obtain ⟨s₁', hs₁', hcontent, hlinger₁, hhost₁⟩ := parseLines_spec (s := init) rfl front
      cases hs₁.symm.trans hs₁'
      obtain ⟨code, s₂', hs₂', -, hlinger₂, hhost₂⟩ := parseHeaders_line hcontent l
      rw [parseLines_append, hs₁, Option.bind_some, parseLines, hs₂'] at hs₂
      cases hs₂
      have hl : ¬ Keeping letterC l.text := (hnone l (by simp [hls])).2
      rw [if_neg hnamed] at hhost₂
      rw [or_iff_left hl] at hlinger₂
      exact ⟨Bool.eq_iff_iff.mpr hlinger₂, hhost₂⟩

/-- `"Connection: keep-alive"`, in a buffer of its own. -/
def connectionKeepAlive : HeaderLine where
  buf := ascii "Connection: keep-alive".toList ++ [0]
  place := 0
  text := ascii "Connection: keep-alive".toList
  textAt := by decide

/-- The connection is not kept alive. -/
theorem parseLines_notHeads :
    ¬ ∃ s, init.parseLines [connectionKeepAlive] = some s ∧ Heads [connectionKeepAlive] s := by
  rintro ⟨s, hs, hheads⟩
  have hlinger : s.linger = false := congrArg linger (Option.some.inj hs).symm
  have hkeep : Keeping connection connectionKeepAlive.text := by decide
  rw [hheads.linger.mpr ⟨_, List.mem_singleton_self _, hkeep⟩] at hlinger
  cases hlinger

end LinuxServer.HttpConn
