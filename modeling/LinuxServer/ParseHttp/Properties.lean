import LinuxServer.ParseHttp.Basic

/-!
# What the request parser does with its buffer

The parsers of a line read and write only that line, up to the NULs that `parse_line` has put
behind it, so what they do is a function of the line: `requestLine` says which one for
`parse_request_line`. With `content` for a whole call of `parse_content`, the buffer is gone.
-/

namespace LinuxServer.ParseHttp

open Core

/-- `'/'` at the right place of a URL: in front, or after `http://`. -/
def urlOk (u : Bytes) : Bool :=
  if caseEqN 7 u http then decide (slash ∈ u.drop 7) else u.head? == some slash

def versionOk (line : Bytes) (url version : ℕ) : Bool :=
  caseEq (cut (line.drop (version + strspn (cut (line.drop version))))) http11 &&
    urlOk (cut (line.drop url))

/-- A line from the blanks behind its method on: the result and the line as it is left. -/
def urlLine (line : Bytes) (k : ℕ) : HttpCode × Bytes :=
  let url := k + strspn (cut (line.drop k))
  match strpbrk (cut (line.drop url)) with
  | none => (.badRequest, line)
  | some j =>
    let line := line.set (url + j) 0
    (if versionOk line url (url + j + 1) then .noRequest else .badRequest, line)

/-- What `parse_request_line` makes of a line. -/
def requestLine (line : Bytes) : HttpCode × Bytes :=
  match strpbrk (cut line) with
  | none => (.badRequest, line)
  | some i =>
    let line := line.set i 0
    if caseEq (cut line) get = false then (.badRequest, line) else urlLine line (i + 1)

variable {s : Parser} {front line tail : Bytes} {k url : ℕ}

lemma urlLine_length (line : Bytes) (k : ℕ) : (urlLine line k).2.length = line.length := by
  unfold urlLine
  dsimp only
  split <;> simp

lemma requestLine_length (line : Bytes) : (requestLine line).2.length = line.length := by
  unfold requestLine
  split
  · rfl
  · dsimp only
    split
    · simp
    · rw [urlLine_length, List.length_set]

/-- Nothing but `NO_REQUEST` and `BAD_REQUEST` comes out of a request line. -/
lemma requestLine_code (line : Bytes) :
    (requestLine line).1 = .noRequest ∨ (requestLine line).1 = .badRequest := by
  unfold requestLine
  split
  · exact .inr rfl
  · dsimp only
    split
    · exact .inr rfl
    · unfold urlLine
      dsimp only
      split
      · exact .inr rfl
      · dsimp only
        split
        · exact .inl rfl
        · exact .inr rfl

namespace Parser

lemma textAt_spec (hbuf : s.buffer = front ++ line ++ 0 :: tail) (hk : k ≤ line.length) :
    textAt s.buffer (front.length + k) = some (cut (line.drop k)) := by
  rw [hbuf, textAt_append hk]

lemma putNul_spec (hbuf : s.buffer = front ++ line ++ 0 :: tail) (hk : k < line.length) :
    s.putNul (front.length + k) =
      some { s with buffer := front ++ line.set k 0 ++ 0 :: tail } := by
  have hlt : front.length + k < s.buffer.length := by
    rw [hbuf, List.length_append, List.length_append]
    omega
  rw [putNul, nulAt_of_lt hlt, hbuf, set_append 0 hk, Option.map_some]

/-- The slash that a search from `k` on finds is in the buffer. -/
lemma getElem?_of_strchr {j : ℕ} (hbuf : s.buffer = front ++ line ++ 0 :: tail) (hk : k ≤ line.length)
    (hj : strchr (cut (line.drop k)) slash = some j) :
    s.buffer[front.length + k + j]? = some slash := by
  obtain ⟨hlt, hslash, -⟩ := List.findIdx?_eq_some_iff_getElem.mp hj
  have hlt' : k + j ≤ line.length := by
    have hle := length_cut_le (line.drop k)
    rw [List.length_drop] at hle
    omega
  rw [add_assoc, hbuf, getElem?_append hlt', ← List.drop_drop, cut_drop hlt.le,
    List.drop_eq_getElem_cons hlt, List.headD_cons, beq_iff_eq.mp hslash]

lemma strchr_isSome (t : Bytes) : (strchr t slash).isSome = decide (slash ∈ t) := by
  rw [strchr, List.findIdx?_isSome, List.any_beq']
  simp

lemma place_le (k : ℕ) (hk : k ≤ line.length) : k + (cut (line.drop k)).length ≤ line.length := by
  have hle := length_cut_le (line.drop k)
  rw [List.length_drop] at hle
  omega

/-- `n` bytes that are compared to be equal are there. -/
lemma le_length_of_caseEqN {n : ℕ} {t w : Bytes} (h : caseEqN n t w) (hw : (w.take n).length = n) :
    n ≤ t.length := by
  have heq := congrArg List.length (beq_iff_eq.mp h)
  rw [List.length_map, List.length_map, List.length_take, hw] at heq
  omega

lemma checkUrl_spec (hbuf : s.buffer = front ++ line ++ 0 :: tail) (hk : k ≤ line.length) :
    ∃ r, s.checkUrl (front.length + k) = some r ∧ r.isSome = urlOk (cut (line.drop k)) ∧
      ∀ p, r = some p → ∃ t, textAt s.buffer p = some t := by
  simp only [checkUrl, urlPath, textAt_spec hbuf hk, Option.bind_eq_bind, Option.bind_some, urlOk]
  split
  next hhttp =>
    have hlen : 7 ≤ (cut (line.drop k)).length := le_length_of_caseEqN hhttp rfl
    have hle := place_le k hk
    have hk' : k + 7 ≤ line.length := by omega
    rw [add_assoc, textAt_spec hbuf hk', Option.bind_some, Option.bind_some, ← cut_drop hlen,
      List.drop_drop, ← strchr_isSome]
    cases hchr : strchr (cut (line.drop (k + 7))) slash with
    | none => exact ⟨none, rfl, rfl, fun p hp => by cases hp⟩
    | some j =>
      have hbyte := getElem?_of_strchr hbuf hk' hchr
      refine ⟨some (front.length + (k + 7) + j), by simp [hbyte], rfl, ?_⟩
      rintro _ ⟨⟩
      obtain ⟨hlt, -⟩ := List.findIdx?_eq_some_iff_getElem.mp hchr
      have hle' := place_le (k + 7) hk'
      rw [add_assoc]
      exact ⟨_, textAt_spec hbuf (by omega)⟩
  next hhttp =>
    have htext := textAt_spec hbuf hk
    rw [Option.bind_some, hbuf]
    simp only [getElem?_append hk, Option.bind_some]
    refine ⟨_, rfl, ?_, fun p hp => ?_⟩
    · cases cut (line.drop k) with
      | nil => rfl
      | cons c cs => by_cases hc : c = slash <;> simp [hc]
    · split at hp
      next =>
        cases hp
        rw [← hbuf]
        exact ⟨_, htext⟩
      next => cases hp

/-- What a parser of the line returns: its result, the line as it is left, and the next state. -/
def result (s : Parser) (front tail : Bytes) (r : HttpCode × Bytes) : HttpCode × Parser :=
  (r.1, { s with
    buffer := front ++ r.2 ++ 0 :: tail
    checkState := if r.1 = .noRequest then .header else s.checkState })

lemma result_bad (hbuf : s.buffer = front ++ line ++ 0 :: tail) :
    (HttpCode.badRequest, s) = s.result front tail (.badRequest, line) := by
  rw [result, ← hbuf]
  rfl

lemma parseVersion_spec {version : ℕ} (hbuf : s.buffer = front ++ line ++ 0 :: tail)
    (hurl : url ≤ line.length) (hversion : version ≤ line.length) :
    s.parseVersion (front.length + url) (front.length + version) = some (s.result front tail
      (if versionOk line url version then .noRequest else .badRequest, line)) := by
  have hsp := strspn_le (cut (line.drop version))
  have hle := place_le version hversion
  obtain ⟨r, hr, hsome, htext⟩ := checkUrl_spec hbuf hurl
  rw [parseVersion, versionOk, ← hsome]
  simp only [textAt_spec hbuf hversion, Option.bind_eq_bind, Option.bind_some, add_assoc,
    textAt_spec hbuf (by omega : version + strspn (cut (line.drop version)) ≤ line.length), hr]
  split
  next hv => simp [hv, result_bad hbuf]
  next hv =>
    rw [Bool.not_eq_false] at hv
    cases r with
    | none => simp [result_bad hbuf]
    | some p =>
      obtain ⟨t, ht⟩ := htext p rfl
      simp [hv, ht, result, ← hbuf]

lemma parseUrl_spec (hbuf : s.buffer = front ++ line ++ 0 :: tail) (hk : k ≤ line.length) :
    s.parseUrl (front.length + k) = some (s.result front tail (urlLine line k)) := by
  have hsp := strspn_le (cut (line.drop k))
  have hle := place_le k hk
  have hurl : k + strspn (cut (line.drop k)) ≤ line.length := by omega
  have hle' := place_le _ hurl
  rw [parseUrl, urlLine]
  simp only [textAt_spec hbuf hk, Option.bind_eq_bind, Option.bind_some, add_assoc front.length,
    textAt_spec hbuf hurl]
  cases hj : strpbrk (cut (line.drop (k + strspn (cut (line.drop k))))) with
  | none => simp only [result_bad hbuf]
  | some j =>
    have hlt := strpbrk_lt hj
    have hput := putNul_spec hbuf (k := k + strspn (cut (line.drop k)) + j) (by omega)
    dsimp only
    rw [hput, Option.bind_some,
      parseVersion_spec rfl (by rw [List.length_set]; omega) (by rw [List.length_set]; omega)]
    rfl

/-- `parse_request_line` of a line that a NUL ends. -/
theorem parseRequestLine_spec (hbuf : s.buffer = front ++ line ++ 0 :: tail) :
    s.parseRequestLine front.length = some (s.result front tail (requestLine line)) := by
  have htext := textAt_spec hbuf (Nat.zero_le _)
  rw [add_zero, List.drop_zero] at htext
  rw [parseRequestLine, requestLine, htext, Option.bind_eq_bind, Option.bind_some]
  cases hi : strpbrk (cut line) with
  | none => simp only [result_bad hbuf]
  | some i =>
    have hlt := strpbrk_lt hi
    have hle := length_cut_le line
    have hput := putNul_spec hbuf (k := i) (by omega)
    have hmethod := textAt_spec
      (s := { s with buffer := front ++ line.set i 0 ++ 0 :: tail }) rfl (Nat.zero_le _)
    rw [add_zero, List.drop_zero] at hmethod
    dsimp only at hmethod ⊢
    rw [hput, Option.bind_eq_bind, Option.bind_some, hmethod, Option.bind_some]
    split
    next => exact congrArg some (result_bad rfl)
    next =>
      rw [add_assoc, parseUrl_spec rfl (by rw [List.length_set]; omega)]
      rfl

lemma hostValue_spec (hbuf : s.buffer = front ++ line ++ 0 :: tail)
    (hhost : caseEqN 5 (cut line) hostName) :
    ∃ t, s.hostValue front.length = some t := by
  have hlen : 5 ≤ (cut line).length := le_length_of_caseEqN hhost rfl
  have hk : 5 ≤ line.length := hlen.trans (length_cut_le line)
  have hsp := strspn_le (cut (line.drop 5))
  have hle := place_le 5 hk
  rw [hostValue, textAt_spec hbuf hk, Option.bind_eq_bind, Option.bind_some, add_assoc]
  exact ⟨_, textAt_spec hbuf (by omega)⟩

/-- `parse_headers` of a line that a NUL ends. -/
theorem parseHeaders_spec (hbuf : s.buffer = front ++ line ++ 0 :: tail) :
    s.parseHeaders front.length = some (if cut line = [] then .getRequest else .noRequest) := by
  have hbyte : s.buffer[front.length + 0]? = some ((cut (line.drop 0)).headD 0) := by
    rw [hbuf, getElem?_append (Nat.zero_le _)]
  have htext := textAt_spec hbuf (Nat.zero_le _)
  rw [add_zero, List.drop_zero] at hbyte htext
  rw [parseHeaders, hbyte, Option.bind_eq_bind, Option.bind_some]
  simp only [headD_cut_eq_zero]
  split
  next => rfl
  next =>
    rw [htext, Option.bind_eq_bind, Option.bind_some]
    split
    next hhost =>
      obtain ⟨t, ht⟩ := hostValue_spec hbuf hhost
      rw [ht]
      rfl
    next => rfl

end Parser

end LinuxServer.ParseHttp
