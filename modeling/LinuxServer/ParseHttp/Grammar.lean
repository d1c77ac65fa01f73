import LinuxServer.ParseHttp.Content

/-!
# The requests that the parser accepts

A grammar of requests over the bytes received, without the parser: a line is the bytes up to the next
CR LF pair, and its text is cut at its first NUL. One call of `parse_content` accepts the requests
of the grammar, refuses the bytes that begin none of them, and waits for more in all other cases.
-/

namespace LinuxServer.ParseHttp

open Core

/-- A path, or `http://` with a slash somewhere behind it. -/
def IsUrl (u : Bytes) : Prop :=
  u.head? = some slash ∨ ∃ p r, u = p ++ r ∧ caseEq p http = true ∧ slash ∈ r

/-- METHOD blank+ URL blank+ VERSION -/
def IsRequestLine (t : Bytes) : Prop :=
  ∃ m b u b' v, t = m ++ b ++ u ++ b' ++ v ∧ Word m ∧ Blanks b ∧ Word u ∧ Blanks b' ∧ Word v ∧
    caseEq m get = true ∧ caseEq v http11 = true ∧ IsUrl u

/-- The bytes of finished lines. -/
def lines (ls : List Bytes) : Bytes := (ls.map (· ++ [cr, lf])).flatten

/-- Lines with a text and then one without, in front of what is not looked at. -/
def EndsHeader (x : Bytes) : Prop :=
  ∃ hs e rest, x = lines hs ++ lines [e] ++ rest ∧ (∀ h ∈ hs, Plain h ∧ cut h ≠ []) ∧
    Plain e ∧ cut e = []

/-- A bare LF, or a CR in front of another byte than LF, in the first line. -/
def Broken (x : Bytes) : Prop :=
  ∃ a b, x = a ++ b ∧ Plain a ∧ ((∃ y, b = lf :: y) ∨ ∃ c y, b = cr :: c :: y ∧ c ≠ lf)

/-- Lines with a text and then a broken one. -/
def BreaksHeader (x : Bytes) : Prop :=
  ∃ hs rest, x = lines hs ++ rest ∧ (∀ h ∈ hs, Plain h ∧ cut h ≠ []) ∧ Broken rest

/-- A request line, a header and its end. -/
def Accepts (x : Bytes) : Prop :=
  ∃ l rest, x = lines [l] ++ rest ∧ Plain l ∧ IsRequestLine (cut l) ∧ EndsHeader rest

/-- Broken before the end of the header, or a first line that is no request line. -/
def Rejects (x : Bytes) : Prop :=
  Broken x ∨ ∃ l rest, x = lines [l] ++ rest ∧ Plain l ∧
    (¬ IsRequestLine (cut l) ∨ BreaksHeader rest)

/-- The result that says which of two disjoint kinds the bytes are of, if any. -/
structure Classifies (code : HttpCode) (accepts rejects : Prop) : Prop where
  get : code = .getRequest ↔ accepts
  bad : code = .badRequest ↔ rejects
  no : code = .noRequest ↔ ¬ accepts ∧ ¬ rejects

variable {g g' : Progress} {code : HttpCode} {x a line rest m r t : Bytes}

/-! ### The request line -/

lemma length_of_caseEq {a b : Bytes} (h : caseEq a b = true) : a.length = b.length := by
  simpa using congrArg List.length (beq_iff_eq.mp h)

/-- There are no blanks in `HTTP/1.1`, in any case. -/
lemma word_of_http11 {v : Bytes} (h : caseEq v http11 = true) : Word v := by
  have hversion : Word http11 := by decide
  exact hversion.of_caseEq h

lemma isUrl_iff (u : Bytes) : IsUrl u ↔ urlOk u = true := by
  have htake : http.take 7 = http := rfl
  rw [urlOk, caseEqN, htake]
  constructor
  · rintro (hslash | ⟨p, r, rfl, hp, hr⟩)
    · split
      next hhttp =>
        -- such a URL begins with an `h`
        cases u with
        | nil => cases hslash
        | cons c cs =>
          obtain rfl : c = slash := by simpa using hslash
          exact absurd (congrArg List.head? (beq_iff_eq.mp hhttp)) (by simp [http, ascii, toLower, slash])
      next => simp [hslash]
    · have hlen : p.length = 7 := length_of_caseEq hp
      rw [← hlen, List.take_left, List.drop_left, if_pos hp]
      exact decide_eq_true hr
  · intro h
    split at h
    next hhttp =>
      exact .inr ⟨u.take 7, u.drop 7, (List.take_append_drop 7 u).symm, hhttp, of_decide_eq_true h⟩
    next => exact .inl (beq_iff_eq.mp h)

lemma IsUrl.ne_nil {u : Bytes} (h : IsUrl u) : u ≠ [] := by
  rintro rfl
  rcases h with h | ⟨p, r, h, -, hr⟩
  · cases h
  · obtain ⟨-, rfl⟩ := List.nil_eq_append_iff.mp h
    cases hr

/-- The line from its URL on, as `urlLine` looks for it. -/
def UrlText (t : Bytes) : Prop :=
  ∃ j, strpbrk t = some j ∧ caseEq ((t.drop (j + 1)).dropWhile isBlank) http11 = true ∧
    urlOk (t.take j) = true

lemma urlText_iff : UrlText t ↔ ∃ u b v, t = u ++ b ++ v ∧ Word u ∧ Blanks b ∧ Unblank v ∧
    caseEq v http11 = true ∧ IsUrl u := by
  constructor
  · rintro ⟨j, hj, hv, hu⟩
    obtain ⟨b, ht, hword, hb, hunblank⟩ := strpbrk_iff.mp ⟨j, hj, rfl, rfl⟩
    exact ⟨_, b, _, ht, hword, hb, hunblank, hv, (isUrl_iff _).mpr hu⟩
  · rintro ⟨u, b, v, ht, hword, hb, hunblank, hv, hu⟩
    obtain ⟨j, hj, rfl, rfl⟩ := strpbrk_iff.mpr ⟨b, ht, hword, hb, hunblank⟩
    exact ⟨j, hj, hv, (isUrl_iff _).mp hu⟩

lemma versionOk_eq {url j : ℕ} (hj : j < (cut (line.drop url)).length) :
    versionOk (line.set (url + j) 0) url (url + j + 1) =
      (caseEq (((cut (line.drop url)).drop (j + 1)).dropWhile isBlank) http11 &&
        urlOk ((cut (line.drop url)).take j)) := by
  have hdrop : ∀ n, (line.set (url + j) 0).drop (url + j + 1 + n) = (line.drop url).drop (j + 1 + n) :=
    fun n => by rw [drop_set_of_lt (by omega), List.drop_drop, add_assoc, add_assoc, add_assoc]
  have hversion : cut ((line.drop url).drop (j + 1)) = (cut (line.drop url)).drop (j + 1) :=
    cut_drop hj
  have hsp := strspn_le ((cut (line.drop url)).drop (j + 1))
  rw [List.length_drop] at hsp
  have hurl : (line.set (url + j) 0).drop url = (line.drop url).set j 0 := by
    rw [List.drop_set, if_neg (by omega), Nat.add_sub_cancel_left]
  have hdrop₀ := hdrop 0
  rw [add_zero, add_zero] at hdrop₀
  rw [versionOk, hdrop₀, hversion, hdrop, cut_drop (by omega), ← List.drop_drop, drop_strspn, hurl,
    cut_set hj]

lemma urlLine_iff (line : Bytes) (k : ℕ) :
    (urlLine line k).1 = .noRequest ↔ UrlText ((cut (line.drop k)).dropWhile isBlank) := by
  have htext : cut (line.drop (k + strspn (cut (line.drop k)))) =
      (cut (line.drop k)).dropWhile isBlank := by
    rw [← List.drop_drop, cut_drop (strspn_le _), drop_strspn]
  rw [urlLine, UrlText, ← htext]
  dsimp only
  cases hj : strpbrk (cut (line.drop (k + strspn (cut (line.drop k))))) with
  | none => simp
  | some j => simp [versionOk_eq (strpbrk_lt hj)]

/-- `parse_request_line` accepts the request lines. -/
theorem requestLine_iff (line : Bytes) :
    (requestLine line).1 = .noRequest ↔ IsRequestLine (cut line) := by
  have hsplit : (requestLine line).1 = .noRequest ↔ ∃ i, strpbrk (cut line) = some i ∧
      caseEq ((cut line).take i) get = true ∧
        UrlText (((cut line).drop (i + 1)).dropWhile isBlank) := by
    rw [requestLine]
    cases hi : strpbrk (cut line) with
    | none => simp
    | some i =>
      have hlt := strpbrk_lt hi
      have htext : cut ((line.set i 0).drop (i + 1)) = (cut line).drop (i + 1) := by
        rw [drop_set_of_lt (by omega), cut_drop hlt]
      dsimp only
      rw [cut_set hlt]
      cases hget : caseEq ((cut line).take i) get with
      | false => simp [hget]
      | true => simp [hget, urlLine_iff, htext]
  rw [hsplit]
  constructor
  · rintro ⟨i, hi, hm, hurl⟩
    obtain ⟨b, ht, hword, hb, -⟩ := strpbrk_iff.mp ⟨i, hi, rfl, rfl⟩
    obtain ⟨u, b', v, hu, hword', hb', -, hv, hisUrl⟩ := urlText_iff.mp hurl
    refine ⟨_, b, u, b', v, ?_, hword, hb, hword', hb', word_of_http11 hv, hm, hv, hisUrl⟩
    rw [List.append_assoc, List.append_assoc, ← List.append_assoc u, ← hu]
    exact ht
  · rintro ⟨m, b, u, b', v, ht, hm, hb, hu, hb', hv, hget, hhttp, hurl⟩
    have hunblank : Unblank (u ++ b' ++ v) := by
      rw [List.append_assoc]
      exact hu.unblank_append hurl.ne_nil
    have ht' : cut line = m ++ b ++ (u ++ b' ++ v) := by
      rw [ht]
      simp only [List.append_assoc]
    obtain ⟨i, hi, rfl, hrest⟩ := strpbrk_iff.mpr ⟨b, ht', hm, hb, hunblank⟩
    refine ⟨i, hi, hget, ?_⟩
    rw [hrest]
    exact urlText_iff.mpr ⟨u, b', v, rfl, hu, hb', hv.unblank, hhttp, hurl⟩

/-! ### The grammar, line by line -/

lemma lines_cons (l : Bytes) (ls : List Bytes) : lines (l :: ls) = l ++ cr :: lf :: lines ls := by
  simp [lines]

lemma line_iff : x = lines [line] ++ rest ∧ Plain line ↔ scan x = .line line rest := by
  rw [scan_eq_line_iff]
  simp [lines]

lemma broken_iff : Broken x ↔ ∃ a b, scan x = .bad a b := by
  simp only [Broken, scan_eq_bad_iff]

lemma endsHeader_iff :
    EndsHeader x ↔ ∃ l rest, scan x = .line l rest ∧ (cut l = [] ∨ EndsHeader rest) := by
  constructor
  · rintro ⟨hs, e, rest, rfl, hhs, he, hcut⟩
    cases hs with
    | nil => exact ⟨e, rest, line_iff.mp ⟨rfl, he⟩, .inl hcut⟩
    | cons h hs =>
      rw [List.forall_mem_cons] at hhs
      refine ⟨h, lines hs ++ lines [e] ++ rest, scan_eq_line_iff.mpr ⟨?_, hhs.1.1⟩,
        .inr ⟨hs, e, rest, rfl, hhs.2, he, hcut⟩⟩
      simp [lines_cons]
  · rintro ⟨l, rest, hscan, h⟩
    obtain ⟨rfl, hl⟩ := line_iff.mpr hscan
    by_cases hcut : cut l = []
    · exact ⟨[], l, rest, rfl, by simp, hl, hcut⟩
    · obtain ⟨hs, e, rest', rfl, hhs, he⟩ := h.resolve_left hcut
      refine ⟨l :: hs, e, rest', ?_, List.forall_mem_cons.mpr ⟨⟨hl, hcut⟩, hhs⟩, he⟩
      simp [lines]

lemma breaksHeader_iff : BreaksHeader x ↔
    Broken x ∨ ∃ l rest, scan x = .line l rest ∧ cut l ≠ [] ∧ BreaksHeader rest := by
  constructor
  · rintro ⟨hs, rest, rfl, hhs, hrest⟩
    cases hs with
    | nil => exact .inl hrest
    | cons h hs =>
      rw [List.forall_mem_cons] at hhs
      refine .inr ⟨h, lines hs ++ rest, scan_eq_line_iff.mpr ⟨?_, hhs.1.1⟩, hhs.1.2,
        hs, rest, rfl, hhs.2, hrest⟩
      simp [lines_cons]
  · rintro (h | ⟨l, rest, hscan, hcut, hs, rest', rfl, hhs, hrest⟩)
    · exact ⟨[], x, rfl, by simp, h⟩
    · obtain ⟨rfl, hl⟩ := line_iff.mpr hscan
      refine ⟨l :: hs, rest', ?_, List.forall_mem_cons.mpr ⟨⟨hl, hcut⟩, hhs⟩, hrest⟩
      simp [lines]

lemma accepts_iff :
    Accepts x ↔ ∃ l rest, scan x = .line l rest ∧ IsRequestLine (cut l) ∧ EndsHeader rest := by
  simp only [Accepts, ← line_iff, and_assoc]

lemma rejects_iff : Rejects x ↔
    Broken x ∨ ∃ l rest, scan x = .line l rest ∧ (¬ IsRequestLine (cut l) ∨ BreaksHeader rest) := by
  simp only [Rejects, ← line_iff, and_assoc]

/-! ### A call of `parse_content` -/

namespace Classifies

variable {p q : Prop}

lemma of_get (hp : p) (hq : ¬ q) : Classifies .getRequest p q := ⟨by simpa, by simpa, by simp [hp]⟩

lemma of_bad (hp : ¬ p) (hq : q) : Classifies .badRequest p q := ⟨by simpa, by simpa, by simp [hq]⟩

lemma of_no (hp : ¬ p) (hq : ¬ q) : Classifies .noRequest p q :=
  ⟨by simpa, by simpa, by simp [hp, hq]⟩

lemma mem {code : HttpCode} (h : Classifies code p q) :
    code ∈ [.noRequest, .getRequest, .badRequest] := by
  by_cases hp : p
  · simp [h.get.mpr hp]
  · by_cases hq : q
    · simp [h.bad.mpr hq]
    · simp [h.no.mpr ⟨hp, hq⟩]

end Classifies

lemma Content.classifies_header (h : Content g code g') (hstate : g.state = .header)
    (hcur : g.cur = []) : Classifies code (EndsHeader g.rest) (BreaksHeader g.rest) := by
  induction h with
  | @stop g g' code h =>
    rw [endsHeader_iff, breaksHeader_iff, broken_iff]
    cases hscan : scan g.rest with
    | more a held =>
      cases (Progress.turn_of_more hscan).symm.trans h
      exact .of_no (by simp) (by simp)
    | bad a rest =>
      cases (Progress.turn_of_bad hscan).symm.trans h
      exact .of_bad (by simp) (by simp)
    | line a rest =>
      rw [Progress.turn_of_line hscan, Progress.turnLine_header hstate, hcur] at h
      split at h
      next hcut =>
        cases h
        exact .of_get (by simpa using .inl hcut) (by simpa using fun hne => absurd hcut hne)
      next => cases h
  | @go g g₁ g' code h _ ih =>
    rw [endsHeader_iff, breaksHeader_iff, broken_iff]
    cases hscan : scan g.rest with
    | more a held => cases (Progress.turn_of_more hscan).symm.trans h
    | bad a rest => cases (Progress.turn_of_bad hscan).symm.trans h
    | line a rest =>
      rw [Progress.turn_of_line hscan, Progress.turnLine_header hstate, hcur] at h
      split at h
      next => cases h
      next hcut =>
        cases h
        have hrest : Classifies code (EndsHeader rest) (BreaksHeader rest) := ih rfl rfl
        simpa [show cut a ≠ [] from hcut] using hrest

lemma requestLine_bad_iff (line : Bytes) :
    (requestLine line).1 = .badRequest ↔ ¬ IsRequestLine (cut line) := by
  rw [← requestLine_iff]
  rcases requestLine_code line with h | h <;> simp [h]

lemma Content.classifies (h : Content (.start x) code g') :
    Classifies code (Accepts x) (Rejects x) := by
  rw [accepts_iff, rejects_iff, broken_iff]
  cases hscan : scan x with
  | more a held =>
    have hturn := Progress.turn_of_more (g := .start x) hscan
    cases h with
    | stop h =>
      cases hturn.symm.trans h
      exact .of_no (by simp) (by simp)
    | go h _ => cases hturn.symm.trans h
  | bad a rest =>
    have hturn := Progress.turn_of_bad (g := .start x) hscan
    cases h with
    | stop h =>
      cases hturn.symm.trans h
      exact .of_bad (by simp) (by simp)
    | go h _ => cases hturn.symm.trans h
  | line a rest =>
    have hturn := Progress.turn_of_line (g := .start x) hscan
    rw [Progress.turnLine_requestLine rfl] at hturn
    have hbad : (requestLine a).1 = .badRequest ↔ ¬ IsRequestLine (cut a) := requestLine_bad_iff a
    cases h with
    | stop h =>
      rw [hturn] at h
      split at h
      next hline =>
        cases h
        have hnot := hbad.mp hline
        exact .of_bad (by simp [hnot]) (by simp [hnot])
      next => cases h
    | go h hrest =>
      rw [hturn] at h
      split at h
      next => cases h
      next hline =>
        cases h
        have hheader : Classifies code (EndsHeader rest) (BreaksHeader rest) :=
          hrest.classifies_header rfl rfl
        have hline' : IsRequestLine (cut a) := not_not.mp (mt hbad.mpr hline)
        simpa [hline'] using hheader

/-- The parser at the start of a connection, when the bytes `x` are received. -/
def received (x pad : Bytes) : Parser := ⟨x ++ pad, 0, x.length, 0, .requestLine⟩

/-- `parse_content` accepts the requests of the grammar, and refuses what begins none of them. -/
theorem parseContent_classifies (x pad : Bytes) :
    ∃ code s, (received x pad).parseContent = some (code, s) ∧
      Classifies code (Accepts x) (Rejects x) ∧ code ∈ [.noRequest, .getRequest, .badRequest] := by
  have hshows : (received x pad).Shows (.start x) pad := by
    constructor <;> simp [received, Progress.start]
  obtain ⟨code, g, s, hs, hg, -, -⟩ := Parser.parseContent_spec hshows (.start x)
  exact ⟨code, s, hs, hg.classifies, hg.classifies.mem⟩

end LinuxServer.ParseHttp
