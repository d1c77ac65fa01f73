import LinuxServer.HttpConn.Reading
import LinuxServer.ParseHttp.Grammar

/-!
# The request line in `http_conn`

What `parse_request_line` does at a text in the read buffer: which bytes it writes, where its pointers
point to, and where `m_url` is when it accepts the line.

It is a copy of the parser of `parse_http.cpp` that skips seven bytes of the URLs that do not begin with
`http://`, where the other one skips the seven bytes of `http://`. So it looks for the slash behind the
seventh byte, in the version if the URL is shorter, and the two make the same of a line only
when both of them refuse it.
-/

namespace LinuxServer.HttpConn

open Core

open ParseHttp (get http11 http slash word_of_http11 IsRequestLine IsUrl)

variable {s s₁ s' : HttpConn} {text url version : ℕ} {t u v : Bytes} {code : HttpCode}

/-- What stands behind the first seven bytes of the URL `u`, up to the next NUL; the version text `v`
stands behind the NUL of `u`. -/
def behind (u v : Bytes) : Bytes := if 7 ≤ u.length then u.drop 7 else v.drop (6 - u.length)

/-- Where `m_url` is when the version text `v` and the URL `u` at `url` are accepted. -/
def versionPath (url : ℕ) (u v : Bytes) : Option ℕ :=
  if caseEq (v.dropWhile isBlank) http11 = true ∧ caseEqN 7 u http = false then
    (strchr (behind u v) slash).map (url + 7 + ·)
  else
    none

/-- Where `m_url` is when the text `t` at `url`, behind the method, is accepted. -/
def urlPathAt (url : ℕ) (t : Bytes) : Option ℕ :=
  (strpbrk (t.dropWhile isBlank)).bind fun j =>
    versionPath (url + strspn t) ((t.dropWhile isBlank).take j) ((t.dropWhile isBlank).drop (j + 1))

/-- Where `m_url` is when the line `t` at `text` is accepted. -/
def linePath (text : ℕ) (t : Bytes) : Option ℕ :=
  (strpbrk t).bind fun i =>
    if caseEq (t.take i) get = true then urlPathAt (text + i + 1) (t.drop (i + 1)) else none

/-- What a parser of the bytes from `lo` to the NUL at `hi` does, when it accepts them if there is
a `path`. -/
structure Parsed (s : HttpConn) (lo hi : ℕ) (path : Option ℕ) (code : HttpCode) (s' : HttpConn) : Prop
    where
  length : s'.readBuf.length = s.readBuf.length
  bytes : ∀ i, s'.readBuf[i]? = s.readBuf[i]? ∨ s'.readBuf[i]? = some 0 ∧ i < hi
  url : ∀ p, s'.url = some p → lo ≤ p ∧ p ≤ hi
  version : s'.version = s.version ∨ ∀ p, s'.version = some p → lo ≤ p ∧ p ≤ hi
  host : s'.host = s.host
  accepts : code = .noRequest ↔ path ≠ none
  path : ∀ p, path = some p → s'.url = some p ∧ s'.readBuf[p]? = some slash

/-- A line that is refused, with the buffer as it was. -/
lemma Parsed.refused {lo hi : ℕ} (hbuf : s'.readBuf = s.readBuf)
    (hurl : ∀ p, s'.url = some p → lo ≤ p ∧ p ≤ hi)
    (hversion : s'.version = s.version ∨ ∀ p, s'.version = some p → lo ≤ p ∧ p ≤ hi)
    (hhost : s'.host = s.host) : s.Parsed lo hi none .badRequest s' where
  length := by rw [hbuf]
  bytes i := .inl (by rw [hbuf])
  url := hurl
  version := hversion
  host := hhost
  accepts := iff_of_false nofun (not_not.mpr rfl)
  path := nofun

/-- A NUL is written, and the rest is parsed. -/
lemma Parsed.of_putNul {lo lo' hi i : ℕ} {path : Option ℕ}
    (h : s₁.Parsed lo' hi path code s') (hlt : i < s.readBuf.length)
    (hbuf : s₁.readBuf = s.readBuf.set i 0) (hversion : s₁.version = s.version)
    (hhost : s₁.host = s.host) (hlo : lo ≤ lo') (hi' : i < hi) : s.Parsed lo hi path code s' where
  length := by rw [h.length, hbuf, List.length_set]
  bytes n := by
    rcases h.bytes n with hn | hn
    · by_cases hni : n = i
      · subst hni
        refine .inr ⟨?_, hi'⟩
        rw [hn, hbuf, List.getElem?_set_self hlt]
      · left
        rw [hn, hbuf, List.getElem?_set_ne (Ne.symm hni)]
    · exact .inr hn
  url p hp := ⟨hlo.trans (h.url p hp).1, (h.url p hp).2⟩
  version := by
    rcases h.version with hsame | hrange
    · exact .inl (hsame.trans hversion)
    · exact .inr fun p hp => ⟨hlo.trans (hrange p hp).1, (hrange p hp).2⟩
  host := h.host.trans hhost
  accepts := h.accepts
  path := h.path

/-! ### The version and the URL -/

lemma textAt_behind (hurl : textAt s.readBuf url = some u) (hversion : textAt s.readBuf version = some v)
    (hplace : url + u.length + 1 = version) (hlength : 8 ≤ v.length) :
    textAt s.readBuf (url + 7) = some (behind u v) := by
  rw [behind]
  split
  next hlong => exact textAt_drop hurl hlong
  next hshort =>
    have hsum : url + 7 = version + (6 - u.length) := by omega
    rw [hsum]
    exact textAt_drop hversion (by omega)

lemma length_behind_le (hlength : 8 ≤ v.length) :
    7 + (behind u v).length ≤ u.length + 1 + v.length := by
  rw [behind]
  split
  · rw [List.length_drop]
    omega
  · rw [List.length_drop]
    omega

/-- A version has eight bytes. -/
lemma length_of_http11 (h : caseEq (v.dropWhile isBlank) http11 = true) : 8 ≤ v.length := by
  have hlength : (v.dropWhile isBlank).length = 8 := ParseHttp.length_of_caseEq h
  have hle := (List.dropWhile_sublist isBlank (l := v)).length_le
  omega

/-- `http://` does not begin with a slash. -/
lemma headD_ne_slash (h : caseEqN 7 u http = true) : u.headD 0 ≠ slash := by
  intro hslash
  cases u with
  | nil => exact absurd hslash (by decide)
  | cons c cs =>
    obtain rfl : c = slash := hslash
    exact absurd (congrArg List.head? (beq_iff_eq.mp h)) (by simp [http, ascii, toLower, slash])

lemma parseVersion_spec (hurl : textAt s.readBuf url = some u)
    (hversion : textAt s.readBuf version = some v) (hplace : url + u.length + 1 = version)
    (hs : s.url = some url) : ∃ code s', s.parseVersion url version = some (code, s') ∧
      s.Parsed url (version + v.length) (versionPath url u v) code s' := by
  have hspn := strspn_le v
  have hwhere : ∀ p, some url = some p → url ≤ p ∧ p ≤ version + v.length := by
    rintro p ⟨rfl⟩
    omega
  have hplaced : ∀ p, some (version + strspn v) = some p → url ≤ p ∧ p ≤ version + v.length := by
    rintro p ⟨rfl⟩
    omega
  have hcmp := caseEqAt_textAt (textAt_drop hversion hspn) (by decide : (0 : UInt8) ∉ http11)
  rw [drop_strspn] at hcmp
  simp only [parseVersion, strspnAt_textAt hversion, hcmp, Option.bind_eq_bind, Option.bind_some]
  split
  next hno =>
    rw [versionPath, if_neg fun h => by simp [hno] at h]
    exact ⟨_, _, rfl, .refused rfl (fun p hp => hwhere p (hs ▸ hp)) (.inr hplaced) rfl⟩
  next hyes =>
    rw [Bool.not_eq_false] at hyes
    have hlength := length_of_http11 hyes
    simp only [urlPath, caseEqNAt_textAt hurl (by decide : (0 : UInt8) ∉ http), Option.bind_eq_bind,
      Option.bind_some]
    split
    next hhttp =>
      have hbehind := textAt_behind hurl hversion hplace hlength
      rw [strchrAt_textAt hbehind, versionPath, if_pos ⟨hyes, hhttp⟩]
      cases hchr : strchr (behind u v) slash with
      | none => exact ⟨_, _, rfl, .refused rfl (by rintro _ ⟨⟩) (.inr hplaced) rfl⟩
      | some j =>
        obtain ⟨hlt, hslash, -⟩ := List.findIdx?_eq_some_iff_getElem.mp hchr
        have hle := length_behind_le (u := u) hlength
        have hbyte : s.readBuf[url + 7 + j]? = some slash := by
          rw [getElem?_textAt (textAt_drop hbehind hlt.le), List.drop_eq_getElem_cons hlt,
            List.headD_cons, beq_iff_eq.mp hslash]
        simp only [Option.map_some, Option.bind_some, hbyte, if_pos]
        refine ⟨_, _, rfl, rfl, fun _ => .inl rfl, ?_, .inr hplaced, rfl, by simp, ?_⟩
        · rintro p ⟨rfl⟩
          omega
        · rintro p ⟨rfl⟩
          exact ⟨rfl, hbyte⟩
    next hhttp =>
      rw [Bool.not_eq_false] at hhttp
      rw [versionPath, if_neg fun h => by simp [hhttp] at h, Option.bind_some]
      simp only [getElem?_textAt hurl, Option.bind_some, if_neg (headD_ne_slash hhttp)]
      exact ⟨_, _, rfl, .refused rfl hwhere (.inr hplaced) rfl⟩

lemma parseUrl_spec (ht : textAt s.readBuf url = some t) :
    ∃ code s', s.parseUrl url = some (code, s') ∧
      s.Parsed url (url + t.length) (urlPathAt url t) code s' := by
  have hspn := strspn_le t
  have hrest := textAt_drop ht hspn
  rw [drop_strspn] at hrest
  have hlength : strspn t + (t.dropWhile isBlank).length = t.length := by
    rw [← drop_strspn, List.length_drop]
    omega
  have hwhere : ∀ p, some (url + strspn t) = some p → url ≤ p ∧ p ≤ url + t.length := by
    rintro p ⟨rfl⟩
    omega
  simp only [parseUrl, strspnAt_textAt ht, strpbrkAt_textAt hrest, Option.bind_eq_bind,
    Option.bind_some, urlPathAt]
  cases hj : strpbrk (t.dropWhile isBlank) with
  | none =>
    rw [Option.bind_none]
    exact ⟨_, _, rfl, .refused rfl hwhere (.inr (by rintro _ ⟨⟩)) rfl⟩
  | some j =>
    have hlt := strpbrk_lt hj
    have hu := textAt_set_take hrest hlt
    have hv := textAt_set_drop hrest (Nat.lt_add_one j) hlt
    rw [← add_assoc] at hv
    rw [Option.bind_some]
    dsimp only
    have hbyte : url + strspn t + j < s.readBuf.length := by
      have hend := textAt_lt hrest
      omega
    rw [putNul_eq_some (s := { s with url := some (url + strspn t) }).mpr ⟨hbyte, rfl⟩,
      Option.bind_some]
    obtain ⟨code, s', h, hparsed⟩ := parseVersion_spec
      (s := { s with readBuf := s.readBuf.set (url + strspn t + j) 0, url := some (url + strspn t) })
      hu hv (by rw [List.length_take_of_le hlt.le]) rfl
    have hhi : url + strspn t + j + 1 + ((t.dropWhile isBlank).drop (j + 1)).length =
        url + t.length := by
      rw [List.length_drop]
      omega
    rw [hhi] at hparsed
    exact ⟨code, s', h, hparsed.of_putNul hbyte rfl rfl rfl (Nat.le_add_right _ _) (by omega)⟩

/-- `parse_request_line` at a text. -/
theorem parseRequestLine_spec (ht : textAt s.readBuf text = some t) :
    ∃ code s', s.parseRequestLine text = some (code, s') ∧
      s.Parsed text (text + t.length) (linePath text t) code s' := by
  simp only [parseRequestLine, strpbrkAt_textAt ht, Option.bind_eq_bind, Option.bind_some, linePath]
  cases hi : strpbrk t with
  | none =>
    rw [Option.bind_none]
    exact ⟨_, _, rfl, .refused rfl (by rintro _ ⟨⟩) (.inl rfl) rfl⟩
  | some i =>
    have hlt := strpbrk_lt hi
    have hmethod := textAt_set_take ht hlt
    have hrest := textAt_set_drop ht (Nat.lt_add_one i) hlt
    rw [← add_assoc] at hrest
    have hcmp : caseEqAt get (s.readBuf.set (text + i) 0) text = some (caseEq (t.take i) get) :=
      caseEqAt_textAt hmethod (by decide)
    have hbyte : text + i < s.readBuf.length := by
      have hend := textAt_lt ht
      omega
    rw [Option.bind_some]
    dsimp only
    rw [putNul_eq_some.mpr ⟨hbyte, rfl⟩, Option.bind_some]
    simp only [hcmp, Option.bind_some]
    split
    next hno =>
      rw [if_neg (by simp [hno])]
      refine ⟨_, _, rfl, Parsed.of_putNul (.refused rfl ?_ (.inl rfl) rfl) hbyte rfl rfl rfl le_rfl
        (Nat.add_lt_add_left hlt text)⟩
      rintro p ⟨rfl⟩
      omega
    next hyes =>
      rw [Bool.not_eq_false] at hyes
      rw [if_pos hyes]
      obtain ⟨code, s', h, hparsed⟩ := parseUrl_spec
        (s := { s with
          readBuf := s.readBuf.set (text + i) 0, url := some (text + i + 1), method := .get }) hrest
      have hhi : text + i + 1 + (t.drop (i + 1)).length = text + t.length := by
        rw [List.length_drop]
        omega
      have hlo : text ≤ text + i + 1 := by omega
      rw [hhi] at hparsed
      exact ⟨code, s', h, hparsed.of_putNul hbyte rfl rfl rfl hlo (Nat.add_lt_add_left hlt text)⟩

/-! ### The parts of a line -/

/-- A method, a URL and a version, and the blanks between them. -/
structure Parts where
  method : Bytes
  blanks : Bytes
  url : Bytes
  gap : Bytes
  version : Bytes

/-- GET blank+ URL blank+ HTTP/1.1 -/
structure Parts.Of (q : Parts) (t : Bytes) : Prop where
  eq : t = q.method ++ q.blanks ++ (q.url ++ q.gap ++ q.version)
  method : caseEq q.method get = true
  blanks : Blanks q.blanks
  url : Word q.url
  url_ne : q.url ≠ []
  gap : Blanks q.gap
  version : caseEq q.version http11 = true

/-- Where the URL begins. -/
def Parts.start (q : Parts) : ℕ := (q.method ++ q.blanks).length

variable {q : Parts}

/-- There are no blanks in `GET`, in any case. -/
lemma word_of_get {m : Bytes} (h : caseEq m get = true) : Word m := by
  have hget : Word get := by decide
  exact hget.of_caseEq h

lemma isRequestLine_iff : IsRequestLine t ↔ ∃ q : Parts, q.Of t ∧ IsUrl q.url := by
  constructor
  · rintro ⟨m, b, u, b', v, rfl, -, hb, hu, hb', -, hget, hhttp, hurl⟩
    exact ⟨⟨m, b, u, b', v⟩, ⟨by simp, hget, hb, hu, hurl.ne_nil, hb', hhttp⟩, hurl⟩
  · rintro ⟨q, h, hurl⟩
    refine ⟨q.method, q.blanks, q.url, q.gap, q.version, ?_, word_of_get h.method, h.blanks, h.url, h.gap,
      word_of_http11 h.version, h.method, h.version, hurl⟩
    rw [h.eq]
    simp

/-- The steps of `parse_request_line` on a line of such parts. -/
lemma Parts.Of.linePath_eq (h : q.Of t) (text : ℕ) :
    linePath text t = versionPath (text + q.start) q.url (q.gap.drop 1 ++ q.version) := by
  have hversion : Unblank q.version := (word_of_http11 h.version).unblank
  have hunblank : Unblank (q.url ++ q.gap ++ q.version) := by
    rw [List.append_assoc]
    exact h.url.unblank_append h.url_ne
  obtain ⟨i, hi, hm, hr⟩ := strpbrk_iff.mpr ⟨q.blanks, h.eq, word_of_get h.method, h.blanks, hunblank⟩
  obtain ⟨j, hj, hu, -⟩ := strpbrk_iff.mpr ⟨q.gap, rfl, h.url, h.gap, hversion⟩
  have hjlt := strpbrk_lt hj
  have hulength := congrArg List.length hu
  rw [List.length_take_of_le hjlt.le] at hulength
  have hv : (q.url ++ q.gap ++ q.version).drop (j + 1) = q.gap.drop 1 ++ q.version := by
    have hpos : 1 ≤ q.gap.length := List.length_pos_iff.mpr h.gap.1
    rw [hulength, List.append_assoc, List.drop_length_add_append, List.drop_append_of_le_length hpos]
  have hstart : text + i + 1 + strspn (t.drop (i + 1)) = text + q.start := by
    have hilt := strpbrk_lt hi
    have hle := strspn_le (t.drop (i + 1))
    have hlength := congrArg List.length h.eq
    have hrlength := congrArg List.length hr
    rw [← drop_strspn, List.length_drop, List.length_drop] at hrlength
    rw [List.length_drop] at hle
    rw [List.length_append] at hlength
    rw [Parts.start]
    omega
  rw [linePath, hi, Option.bind_some, hm, if_pos h.method, urlPathAt, hr, hj, Option.bind_some, hu, hv,
    hstart]

/-- Only such lines are accepted. -/
lemma exists_parts (h : linePath text t ≠ none) : ∃ q : Parts, q.Of t := by
  obtain ⟨p, hp⟩ := Option.ne_none_iff_exists'.mp h
  obtain ⟨i, hi, hp⟩ := Option.bind_eq_some_iff.mp hp
  split at hp
  next hget =>
    obtain ⟨j, hj, hp⟩ := Option.bind_eq_some_iff.mp hp
    rw [versionPath] at hp
    split at hp
    next hversion =>
      obtain ⟨b, ht, -, hb, hr⟩ := strpbrk_iff.mp ⟨i, hi, rfl, rfl⟩
      obtain ⟨b', hr', hu, hb', -⟩ := strpbrk_iff.mp ⟨j, hj, rfl, rfl⟩
      refine ⟨⟨_, b, _, b', _⟩, ⟨?_, hget, hb, hu, ?_, hb', hversion.1⟩⟩
      · dsimp only
        rw [← hr']
        exact ht
      · -- the rest of the line does not begin with a blank
        intro hnil
        dsimp only at hnil
        rw [hnil, List.nil_append] at hr'
        obtain ⟨c, cs, rfl⟩ := List.exists_cons_of_ne_nil hb'.1
        have hhead : c ∈ ((t.drop (i + 1)).dropWhile isBlank).head? := by
          rw [hr']
          rfl
        have hblank := hr c hhead
        rw [hb'.2 c List.mem_cons_self] at hblank
        cases hblank
    next => cases hp
  next => cases hp

/-! ### Against the parser of `parse_http.cpp` -/

/-- Where the path of a URL begins: in front, or at the first slash behind `http://`. -/
def pathStart (u : Bytes) : ℕ :=
  if caseEqN 7 u http = true then 7 + (u.drop 7).findIdx (· == slash) else 0

/-- Both parsers refuse the line and leave their states as they are, or both accept it and `m_url` is
the path of its URL. -/
def SameLine (s : HttpConn) (text : ℕ) (p : ParseHttp.Parser) (temp : ℕ) (t : Bytes) : Prop :=
  ∃ code s' code' p', s.parseRequestLine text = some (code, s') ∧
    p.parseRequestLine temp = some (code', p') ∧
    ((code = .badRequest ∧ s'.checkState = s.checkState ∧
        code' = .badRequest ∧ p'.checkState = p.checkState) ∨
      (code = .noRequest ∧ s'.checkState = .header ∧ code' = .noRequest ∧ p'.checkState = .header ∧
        ∃ q : Parts, q.Of t ∧ s'.url = some (text + q.start + pathStart q.url) ∧
          textAt s'.readBuf (text + q.start + pathStart q.url) =
            some (q.url.drop (pathStart q.url))))

/-- The URL is refused by both: it is `http://` without a slash behind it, or it begins with neither and
has no slash from its eighth byte on; for a URL of less than seven bytes this means the version
behind it, and it is a single byte with a single blank behind it. -/
def Parts.Refused (q : Parts) : Prop :=
  if caseEqN 7 q.url http = true then slash ∉ q.url.drop 7
  else q.url.head? ≠ some slash ∧
    if 7 ≤ q.url.length then slash ∉ q.url.drop 7 else q.url.length = 1 ∧ q.gap.length = 1

/-- The slash of `HTTP/1.1` is its fifth byte. -/
lemma slash_mem_version {n : ℕ} (h : caseEq v http11 = true) : slash ∈ v.drop n ↔ n ≤ 4 := by
  have hmap : slash ∈ v.drop n ↔ slash ∈ (http11.drop n).map toLower := by
    rw [List.map_drop, ← beq_iff_eq.mp h, ← List.map_drop, List.mem_map]
    constructor
    · exact fun hmem => ⟨slash, hmem, rfl⟩
    · rintro ⟨c, hc, heq⟩
      exact (toLower_eq_iff (by decide)).mp heq ▸ hc
  rw [hmap]
  by_cases hn : n < 8
  · interval_cases n <;> decide
  · have hnil : http11.drop n = [] := List.drop_eq_nil_of_le (not_lt.mp hn)
    rw [hnil]
    exact iff_of_false List.not_mem_nil (by omega)

lemma slash_notMem_blanks {b : Bytes} (hb : ∀ c ∈ b, isBlank c = true) : slash ∉ b := fun hmem =>
  absurd (hb slash hmem) (by decide)

/-- A short URL: the slash behind its seventh byte is the one of the version. -/
lemma Parts.Of.slash_notMem_behind (h : q.Of t) (hshort : ¬ 7 ≤ q.url.length) :
    slash ∉ behind q.url (q.gap.drop 1 ++ q.version) ↔ q.url.length = 1 ∧ q.gap.length = 1 := by
  have hurl := List.length_pos_iff.mpr h.url_ne
  have hgap := List.length_pos_iff.mpr h.gap.1
  have hblank : slash ∉ (q.gap.drop 1).drop (6 - q.url.length) :=
    slash_notMem_blanks fun c hc => h.gap.2 c (List.mem_of_mem_drop (List.mem_of_mem_drop hc))
  rw [behind, if_neg hshort, List.drop_append, List.mem_append, slash_mem_version h.version,
    or_iff_right hblank, List.length_drop]
  omega

/-- Neither of the parsers accepts the URL. -/
lemma Parts.Of.refused_iff (h : q.Of t) (text : ℕ) :
    q.Refused ↔ linePath text t = none ∧ ¬ IsUrl q.url := by
  have hskip : (q.gap.drop 1 ++ q.version).dropWhile isBlank = q.version := by
    rw [List.dropWhile_append_of_pos fun c hc => h.gap.2 c (List.mem_of_mem_drop hc)]
    exact (word_of_http11 h.version).unblank.dropWhile
  have hchr : ∀ w, (strchr w slash).map (text + q.start + 7 + ·) = none ↔ slash ∉ w := by
    intro w
    rw [Option.map_eq_none_iff, strchr, List.findIdx?_eq_none_iff]
    simp only [beq_eq_false_iff_ne, ne_eq]
    exact ⟨fun hall hmem => hall slash hmem rfl, fun hnot c hc heq => hnot (heq ▸ hc)⟩
  rw [h.linePath_eq, versionPath, hskip, ParseHttp.isUrl_iff, ParseHttp.urlOk, Parts.Refused]
  by_cases hhttp : caseEqN 7 q.url http = true
  · simp [hhttp]
  · rw [if_neg hhttp, if_neg hhttp]
    rw [Bool.not_eq_true] at hhttp
    have hcond : caseEq q.version http11 = true ∧ caseEqN 7 q.url http = false := ⟨h.version, hhttp⟩
    rw [if_pos hcond, hchr, beq_iff_eq, and_comm (a := slash ∉ behind _ _)]
    refine and_congr_right fun _ => ?_
    by_cases hlong : 7 ≤ q.url.length
    · rw [if_pos hlong, behind, if_pos hlong]
    · rw [if_neg hlong]
      exact (h.slash_notMem_behind hlong).symm

/-- What the parser of `parse_http.cpp` does at a text. -/
lemma parser_parseRequestLine {p : ParseHttp.Parser} {temp : ℕ} (ht : textAt p.buffer temp = some t) :
    ∃ code' p', p.parseRequestLine temp = some (code', p') ∧
      ((code' = .noRequest ∧ p'.checkState = .header ∧ IsRequestLine t) ∨
        (code' = .badRequest ∧ p'.checkState = p.checkState ∧ ¬ IsRequestLine t)) := by
  have hlt := textAt_lt ht
  obtain ⟨hzero, tail, hdrop⟩ := textAt_eq_some.mp ht
  have hlength : (p.buffer.take temp).length = temp := List.length_take_of_le (by omega)
  have hbuf : p.buffer = p.buffer.take temp ++ t ++ 0 :: tail := by
    rw [List.append_assoc, ← hdrop, List.take_append_drop]
  have hcut : cut t = t := by
    rw [cut, List.takeWhile_eq_self_iff]
    exact fun c hc => decide_eq_true fun heq : c = 0 => hzero (heq ▸ hc)
  have hspec := ParseHttp.Parser.parseRequestLine_spec hbuf
  rw [hlength] at hspec
  refine ⟨_, _, hspec, ?_⟩
  have hline := ParseHttp.requestLine_iff t
  rw [hcut] at hline
  rcases ParseHttp.requestLine_code t with hcode | hcode
  · exact .inl ⟨hcode, if_pos hcode, hline.mp hcode⟩
  · refine .inr ⟨hcode, if_neg ?_, fun h => ?_⟩
    · intro hno
      cases hcode.symm.trans hno
    · rw [hline.mpr h] at hcode
      cases hcode

/-- The parsers make the same of a line if and only if it is not a method, a URL and a version, or both
refuse its URL. -/
theorem parseRequestLine_same_iff {p : ParseHttp.Parser} {temp : ℕ}
    (ht : textAt s.readBuf text = some t) (ht' : textAt p.buffer temp = some t) :
    s.SameLine text p temp t ↔ ∀ q : Parts, q.Of t → q.Refused := by
  obtain ⟨code, s', hs, hparsed⟩ := parseRequestLine_spec ht
  obtain ⟨code', p', hp, hcode'⟩ := parser_parseRequestLine ht'
  have hstate := (parseRequestLine_cases hs).2
  constructor
  · rintro ⟨_, _, _, _, hs₁, hp₁, hsame⟩ q hq
    cases hs.symm.trans hs₁
    cases hp.symm.trans hp₁
    rw [hq.refused_iff text]
    rcases hsame with ⟨rfl, -, rfl, -⟩ | ⟨rfl, -, rfl, -, q', hq', hurl, -⟩
    · constructor
      · by_contra hpath
        cases hparsed.accepts.mpr hpath
      · intro hisUrl
        rcases hcode' with ⟨hcode, -⟩ | ⟨-, -, hline⟩
        · cases hcode
        · exact hline (isRequestLine_iff.mpr ⟨q, hq, hisUrl⟩)
    · -- `m_url` is behind the seventh byte of the URL, which is no `http://`
      exfalso
      obtain ⟨at', hpath⟩ := Option.ne_none_iff_exists'.mp (hparsed.accepts.mp rfl)
      have hurl' := hurl.symm.trans (hparsed.path at' hpath).1
      rw [hq'.linePath_eq, versionPath] at hpath
      split at hpath
      next hcond =>
        obtain ⟨k, -, rfl⟩ := Option.map_eq_some_iff.mp hpath
        have hplace := Option.some.inj hurl'
        rw [pathStart, if_neg (by rw [hcond.2]; exact nofun)] at hplace
        omega
      next => cases hpath
  · intro hrefused
    have hpath : linePath text t = none := by
      by_contra hne
      obtain ⟨q, hq⟩ := exists_parts hne
      exact hne ((hq.refused_iff text).mp (hrefused q hq)).1
    refine ⟨code, s', code', p', hs, hp, .inl ?_⟩
    rcases hstate with ⟨rfl, hstate⟩ | ⟨rfl, -⟩
    · rcases hcode' with ⟨-, -, hline⟩ | ⟨rfl, hstate', -⟩
      · obtain ⟨q, hq, hisUrl⟩ := isRequestLine_iff.mp hline
        exact absurd hisUrl ((hq.refused_iff text).mp (hrefused q hq)).2
      · exact ⟨rfl, hstate, rfl, hstate'⟩
    · exact absurd hpath (hparsed.accepts.mp rfl)

/-- `"GET a HTTP/1.1"` -/
def getA : Bytes := ascii "GET a HTTP/1.1".toList

/-- `"GET / HTTP/1.1"` -/
def getSlash : Bytes := ascii "GET / HTTP/1.1".toList

/-- Both refuse a URL of one byte that is no slash. -/
theorem parseRequestLine_same_getA :
    (init.append getA).SameLine 0 (ParseHttp.received getA [0]) 0 getA ∧
      ∀ q : Parts, q.Of getA → q.Refused := by
  have hsame : (init.append getA).SameLine 0 (ParseHttp.received getA [0]) 0 getA :=
    ⟨_, _, _, _, rfl, rfl, .inl ⟨rfl, rfl, rfl, rfl⟩⟩
  exact ⟨hsame, (parseRequestLine_same_iff rfl rfl).mp hsame⟩

/-- The parser of `parse_http.cpp` accepts the line, and the one of `http_conn` does not. -/
theorem parseRequestLine_notSame :
    ¬ (init.append getSlash).SameLine 0 (ParseHttp.received getSlash [0]) 0 getSlash := by
  rintro ⟨code, s', code', p', hs, hp, hsame⟩
  have hcode : code = .badRequest := congrArg Prod.fst (Option.some.inj hs).symm
  have hcode' : code' = .noRequest := congrArg Prod.fst (Option.some.inj hp).symm
  subst hcode hcode'
  rcases hsame with ⟨-, -, hno, -⟩ | ⟨hbad, -⟩
  · cases hno
  · cases hbad

end LinuxServer.HttpConn
