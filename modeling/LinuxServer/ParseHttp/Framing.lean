import LinuxServer.ParseHttp.Connection

/-!
# Where a request ends

On the wire a request ends at the first blank line. The parser ends it at the first header line
without a text, and a line that begins with a NUL is such a line as well; and the lines that it has
refused before, blank ones or not, are bytes of the connection too.
-/

namespace LinuxServer.ParseHttp

open Core

/-- CR LF CR LF -/
def blankLine : Bytes := [cr, lf, cr, lf]

/-- The bytes end with CR LF CR LF, and there is no earlier one in them. -/
def EndsAtBlankLine (x : Bytes) : Prop :=
  (∃ a, x = a ++ blankLine) ∧ ∀ u v, x = u ++ blankLine ++ v → v = []

/-- The bytes as the parser reads them: lines that it refuses, a request line, header lines with a text,
one without, and what it does not look at. -/
structure Reads (x : Bytes) (rs : List Bytes) (l : Bytes) (hs : List Bytes) (e rest : Bytes) : Prop where
  bytes : x = lines (rs ++ l :: hs ++ [e]) ++ rest
  plain : ∀ a ∈ rs ++ l :: hs ++ [e], Plain a
  refused : ∀ r ∈ rs, ¬ IsRequestLine (cut r)
  requestLine : IsRequestLine (cut l)
  header : ∀ h ∈ hs, cut h ≠ []
  last : cut e = []

/-- The header line without a text begins with a NUL. -/
def NulEndsHeader (x : Bytes) : Prop :=
  ∃ rs l hs e rest, Reads x rs l hs e rest ∧ e.head? = some 0

/-- Of the lines that were refused there is a blank one, and it is not the first. -/
def RefusedBlank (x : Bytes) : Prop :=
  ∃ rs l hs e rest, Reads x rs l hs e rest ∧ [] ∈ rs.tail

/-! ### Blank lines -/

variable {x u v a b e e' l l' rest rest' : Bytes} {ls rs rs' hs hs' : List Bytes}

lemma lines_append (ls ls' : List Bytes) : lines (ls ++ ls') = lines ls ++ lines ls' := by
  simp [lines]

lemma lines_ne_nil (a : Bytes) (ls : List Bytes) : lines (a :: ls) ≠ [] := by
  simp [lines]

lemma eq_nil_of_plain (ha : Plain a) (h : a ++ u = cr :: v) : a = [] := by
  cases a with
  | nil => rfl
  | cons c cs =>
    cases h
    exact absurd rfl (ha cr List.mem_cons_self).1

/-- What begins with a pair, and is made of lines, begins with an empty line. -/
lemma lines_eq_crlf (hplain : ∀ a ∈ ls, Plain a) (h : lines ls = cr :: lf :: v) :
    ∃ ls', ls = [] :: ls' ∧ v = lines ls' := by
  cases ls with
  | nil => cases h
  | cons c ls =>
    rw [lines_cons] at h
    obtain rfl := eq_nil_of_plain (hplain c List.mem_cons_self) h
    cases h
    exact ⟨ls, rfl, rfl⟩

/-- In lines a CR LF CR LF is the end of a line that an empty one follows. -/
lemma lines_eq_blankLine_iff (hplain : ∀ a ∈ ls, Plain a) : lines ls = u ++ blankLine ++ v ↔
    ∃ as a bs, ls = as ++ a :: [] :: bs ∧ u = lines as ++ a ∧ v = lines bs := by
  constructor
  · intro h
    induction ls generalizing u with
    | nil =>
      have hlen := congrArg List.length h
      simp [lines, blankLine] at hlen
    | cons b ls ih =>
      rw [List.forall_mem_cons] at hplain
      rw [lines_cons, List.append_assoc] at h
      rcases List.append_eq_append_iff.mp h with ⟨w, rfl, hw⟩ | ⟨w, rfl, hw⟩
      · rcases w with - | ⟨c, - | ⟨d, w⟩⟩
        · obtain ⟨ls', rfl, rfl⟩ := lines_eq_crlf hplain.2 (List.cons.inj (List.cons.inj hw).2).2
          exact ⟨[], b, ls', rfl, by simp [lines], rfl⟩
        · cases (List.cons.inj (List.cons.inj hw).2).1
        · simp only [List.cons_append, List.cons.injEq, ← List.append_assoc] at hw
          obtain ⟨rfl, rfl, hw⟩ := hw
          obtain ⟨as, a, bs, rfl, rfl, rfl⟩ := ih hplain.2 hw
          exact ⟨b :: as, a, bs, rfl, by simp [lines], rfl⟩
      · rcases w with - | ⟨c, w⟩
        · obtain ⟨ls', rfl, rfl⟩ := lines_eq_crlf hplain.2 (List.cons.inj (List.cons.inj hw).2).2.symm
          exact ⟨[], u, ls', by simp, by simp [lines], rfl⟩
        · have hc := (List.cons.inj hw).1
          subst hc
          exact absurd rfl (hplain.1 cr (by simp)).1
  · rintro ⟨as, a, bs, rfl, rfl, rfl⟩
    simp [lines, blankLine]

/-! ### There is one reading -/

lemma lines_cons_inj (ha : Plain a) (hb : Plain b)
    (h : lines (a :: ls) ++ rest = lines (b :: hs) ++ rest') :
    a = b ∧ lines ls ++ rest = lines hs ++ rest' := by
  have hscan : scan (lines (a :: ls) ++ rest) = .line a (lines ls ++ rest) :=
    scan_eq_line_iff.mpr ⟨by simp [lines_cons], ha⟩
  have hscan' : scan (lines (b :: hs) ++ rest') = .line b (lines hs ++ rest') :=
    scan_eq_line_iff.mpr ⟨by simp [lines_cons], hb⟩
  rw [h] at hscan
  exact Scan.line.inj (hscan.symm.trans hscan')

/-- The first line without a text. -/
lemma header_unique (hplain : ∀ a ∈ hs ++ [e], Plain a) (hplain' : ∀ a ∈ hs' ++ [e'], Plain a)
    (hne : ∀ h ∈ hs, cut h ≠ []) (hne' : ∀ h ∈ hs', cut h ≠ []) (hcut : cut e = []) (hcut' : cut e' = [])
    (h : lines (hs ++ [e]) ++ rest = lines (hs' ++ [e']) ++ rest') : hs = hs' ∧ e = e' := by
  induction hs generalizing hs' with
  | nil =>
    cases hs' with
    | nil => exact ⟨rfl, (lines_cons_inj (by simpa using hplain) (by simpa using hplain') h).1⟩
    | cons b hs' =>
      obtain ⟨rfl, -⟩ := lines_cons_inj (by simpa using hplain) (hplain' b List.mem_cons_self) h
      exact absurd hcut (hne' _ List.mem_cons_self)
  | cons a hs ih =>
    rw [List.forall_mem_cons] at hne
    cases hs' with
    | nil =>
      obtain ⟨rfl, -⟩ := lines_cons_inj (hplain a List.mem_cons_self) (by simpa using hplain') h
      exact absurd hcut' hne.1
    | cons b hs' =>
      rw [List.forall_mem_cons] at hne'
      rw [List.cons_append, List.forall_mem_cons] at hplain hplain'
      obtain ⟨rfl, hrest⟩ := lines_cons_inj hplain.1 hplain'.1 h
      obtain ⟨rfl, rfl⟩ := ih hplain.2 hplain'.2 hne.2 hne'.2 hrest
      exact ⟨rfl, rfl⟩

lemma Reads.unique (h : Reads x rs l hs e rest) (h' : Reads x rs' l' hs' e' rest') : rs = rs' ∧ e = e' := by
  induction rs generalizing rs' x with
  | nil =>
    have heq := h.bytes.symm.trans h'.bytes
    cases rs' with
    | nil =>
      have hplain := h.plain
      have hplain' := h'.plain
      rw [List.nil_append, List.cons_append, List.forall_mem_cons] at hplain hplain'
      obtain ⟨rfl, hrest⟩ := lines_cons_inj hplain.1 hplain'.1 heq
      exact ⟨rfl, (header_unique hplain.2 hplain'.2 h.header h'.header h.last h'.last hrest).2⟩
    | cons r rs' =>
      obtain ⟨rfl, -⟩ := lines_cons_inj (h.plain l (by simp)) (h'.plain r (by simp)) heq
      exact absurd h.requestLine (h'.refused _ List.mem_cons_self)
  | cons r rs ih =>
    have heq := h.bytes.symm.trans h'.bytes
    cases rs' with
    | nil =>
      obtain ⟨rfl, -⟩ := lines_cons_inj (h.plain r (by simp)) (h'.plain l' (by simp)) heq
      exact absurd h'.requestLine (h.refused _ List.mem_cons_self)
    | cons r' rs' =>
      have hplain := h.plain
      have hplain' := h'.plain
      rw [List.cons_append, List.cons_append, List.forall_mem_cons] at hplain hplain'
      obtain ⟨rfl, hrest⟩ := lines_cons_inj hplain.1 hplain'.1 heq
      have htail : Reads _ rs l hs e rest :=
        ⟨rfl, hplain.2, (List.forall_mem_cons.mp h.refused).2, h.requestLine, h.header, h.last⟩
      have htail' : Reads _ rs' l' hs' e' rest' :=
        ⟨hrest, hplain'.2, (List.forall_mem_cons.mp h'.refused).2, h'.requestLine, h'.header, h'.last⟩
      obtain ⟨rfl, rfl⟩ := ih htail htail'
      exact ⟨rfl, rfl⟩

/-! ### What is consumed -/

lemma not_isRequestLine_nil : ¬ IsRequestLine (cut []) := (requestLine_bad_iff []).mp rfl

/-- Only a refused line can be empty in front of the end. -/
lemma Reads.nil_mem_tail (h : Reads x rs l hs e rest) (hnil : [] ∈ (rs ++ l :: hs).tail) :
    [] ∈ rs.tail := by
  have hheader : [] ∉ hs := fun hmem => h.header [] hmem rfl
  cases rs with
  | nil => exact absurd hnil hheader
  | cons r rs =>
    rcases List.mem_append.mp hnil with hmem | hmem
    · exact hmem
    · rcases List.mem_cons.mp hmem with heq | hmem
      · exact absurd (heq ▸ h.requestLine) not_isRequestLine_nil
      · exact absurd hmem hheader

/-- Every line but the first has one in front of it. -/
lemma mem_tail_iff : a ∈ ls.tail ↔ ∃ as b bs, ls = as ++ b :: a :: bs := by
  constructor
  · intro h
    cases ls with
    | nil => cases h
    | cons c ls =>
      obtain ⟨as, bs, rfl⟩ := List.append_of_mem h
      refine ⟨(c :: as).dropLast, (c :: as).getLast (List.cons_ne_nil _ _), bs, ?_⟩
      rw [← List.cons_append]
      conv_lhs => rw [← List.dropLast_append_getLast (List.cons_ne_nil c as)]
      rw [List.append_assoc, List.singleton_append]
  · rintro ⟨as, b, bs, rfl⟩
    cases as with
    | nil => exact List.mem_cons_self
    | cons c as => simp

/-- The lines up to the one without a text end at the first blank line when that one is empty, and no
line that was refused is a blank one, but for the first. -/
lemma Reads.endsAtBlankLine_iff (h : Reads x rs l hs e rest) :
    EndsAtBlankLine (lines (rs ++ l :: hs ++ [e])) ↔ e = [] ∧ [] ∉ rs.tail := by
  constructor
  · rintro ⟨⟨a, ha⟩, hfirst⟩
    constructor
    · rw [← List.append_nil blankLine, ← List.append_assoc, lines_eq_blankLine_iff h.plain] at ha
      obtain ⟨as, b, bs, heq, -, hbs⟩ := ha
      cases bs with
      | nil =>
        rw [List.append_cons as b] at heq
        exact List.singleton_inj.mp (List.append_inj_right' heq rfl)
      | cons c bs => exact absurd hbs.symm (lines_ne_nil c bs)
    · intro hmem
      obtain ⟨as, b, bs, rfl⟩ := mem_tail_iff.mp hmem
      have hblank := hfirst _ _ ((lines_eq_blankLine_iff h.plain).mpr
        ⟨as, b, bs ++ l :: hs ++ [e], by simp, rfl, rfl⟩)
      rw [lines_append] at hblank
      exact lines_ne_nil _ _ (List.append_eq_nil_iff.mp hblank).2
  · rintro ⟨rfl, htail⟩
    constructor
    · rcases List.eq_nil_or_concat (rs ++ l :: hs) with hnil | ⟨as, b, heq⟩
      · simp at hnil
      · refine ⟨lines as ++ b, ?_⟩
        rw [heq]
        simp [lines, blankLine]
    · intro u v huv
      obtain ⟨as, b, bs, heq, -, rfl⟩ := (lines_eq_blankLine_iff h.plain).mp huv
      rcases List.eq_nil_or_concat bs with rfl | ⟨bs, c, rfl⟩
      · rfl
      · have hsplit : rs ++ l :: hs ++ [[]] = as ++ b :: [] :: bs ++ [c] := by
          rw [heq]
          simp
        have hinit := List.append_inj_left' hsplit rfl
        exact absurd (h.nil_mem_tail (mem_tail_iff.mpr ⟨as, b, bs, hinit⟩)) htail

/-- A line without a text is empty, or it begins with a NUL. -/
lemma eq_nil_iff_of_cut (hcut : cut e = []) : e = [] ↔ ¬ e.head? = some 0 := by
  cases e with
  | nil => simp
  | cons c cs =>
    have hc : c = 0 := by
      by_contra hne
      rw [cut_cons_of_ne hne] at hcut
      cases hcut
    simp [hc]

lemma Reads.nulEndsHeader_iff (h : Reads x rs l hs e rest) : NulEndsHeader x ↔ e.head? = some 0 := by
  constructor
  · rintro ⟨rs', l', hs', e', rest', h', hnul⟩
    rw [(h.unique h').2]
    exact hnul
  · intro hnul
    exact ⟨rs, l, hs, e, rest, h, hnul⟩

lemma Reads.refusedBlank_iff (h : Reads x rs l hs e rest) : RefusedBlank x ↔ [] ∈ rs.tail := by
  constructor
  · rintro ⟨rs', l', hs', e', rest', h', hmem⟩
    rw [(h.unique h').1]
    exact hmem
  · intro hmem
    exact ⟨rs, l, hs, e, rest, h, hmem⟩

/-! ### What the parser has read -/

/-- The lines that were taken in the state of the parser. -/
inductive Taken : CheckState → List Bytes → Prop
  | requestLine {rs : List Bytes} : (∀ r ∈ rs, ¬ IsRequestLine (cut r)) → Taken .requestLine rs
  | header {rs hs : List Bytes} {l : Bytes} : (∀ r ∈ rs, ¬ IsRequestLine (cut r)) → IsRequestLine (cut l) →
      (∀ h ∈ hs, cut h ≠ []) → Taken .header (rs ++ l :: hs)

variable {g g' g₁ : Progress} {code : HttpCode} {line : Bytes}

/-- The bytes `x` as they were received: the lines `ls`, and what was not taken yet. -/
structure Lined (g : Progress) (x : Bytes) (ls : List Bytes) : Prop where
  bytes : x = lines ls ++ g.cur ++ g.rest
  length : g.done.length = (lines ls).length
  plain : ∀ a ∈ ls, Plain a
  taken : Taken g.state ls

/-- A line is taken. -/
lemma Lined.endLine {state : CheckState} {line' : Bytes} (h : Lined g x ls)
    (hrest : g.cur ++ g.rest = line ++ cr :: lf :: rest) (hline : Plain line)
    (hlen : line'.length = line.length) (ht : Taken state (ls ++ [line])) :
    Lined (g.endLine state line' rest) x (ls ++ [line]) where
  bytes := by
    rw [h.bytes, List.append_assoc, hrest]
    simp [Progress.endLine, lines]
  length := by
    simp [Progress.endLine, nuls, h.length, hlen, lines]
  plain := by
    intro a ha
    rcases List.mem_append.mp ha with hold | hnew
    · exact h.plain a hold
    · rw [List.mem_singleton.mp hnew]
      exact hline
  taken := ht

/-- What a call of `parse_content` has taken: up to a line without a text, or lines as before. -/
def Consumes (x : Bytes) (code : HttpCode) (g : Progress) : Prop :=
  if code = .getRequest then
    ∃ rs l hs e rest, Reads x rs l hs e rest ∧
      g.done.length + g.cur.length = (lines (rs ++ l :: hs ++ [e])).length
  else
    ∃ ls, Lined g x ls

lemma Lined.upTo (h : Lined g x ls) (hrest : g.rest = a ++ b) : Lined (g.upTo a b) x ls where
  bytes := by
    rw [h.bytes, hrest]
    simp [Progress.upTo]
  length := h.length
  plain := h.plain
  taken := h.taken

/-- A line is handled as the state says. -/
lemma Lined.turnLine (h : Lined g x ls) (hrest : g.cur ++ g.rest = line ++ cr :: lf :: rest)
    (hline : Plain line) :
    (∀ code g', g.turnLine line rest = .stop code g' → Consumes x code g') ∧
      ∀ g', g.turnLine line rest = .go g' → g'.Valid ∧ ∃ ls', Lined g' x ls' := by
  have ht := h.taken
  generalize hstate : g.state = state at ht
  cases ht with
  | requestLine hrs =>
    rw [Progress.turnLine_requestLine hstate]
    by_cases hbad : (requestLine line).1 = .badRequest
    · rw [if_pos hbad]
      refine ⟨?_, fun _ heq => by cases heq⟩
      intro code g' heq
      cases heq
      refine ⟨ls ++ [line], h.endLine hrest hline (requestLine_length line) (.requestLine ?_)⟩
      intro r hr
      rcases List.mem_append.mp hr with hold | hnew
      · exact hrs r hold
      · rw [List.mem_singleton.mp hnew]
        exact (requestLine_bad_iff line).mp hbad
    · rw [if_neg hbad]
      refine ⟨fun _ _ heq => (by cases heq), ?_⟩
      intro g' heq
      cases heq
      have hok : IsRequestLine (cut line) := not_not.mp (mt (requestLine_bad_iff line).mpr hbad)
      exact ⟨Progress.valid_endLine _ _ _ _, ls ++ [line],
        h.endLine hrest hline (requestLine_length line) (.header hrs hok (List.forall_mem_nil _))⟩
  | @header rs hs l hrs hl hhs =>
    rw [Progress.turnLine_header hstate]
    by_cases hcut : cut line = []
    · rw [if_pos hcut]
      refine ⟨?_, fun _ heq => by cases heq⟩
      intro code g' heq
      cases heq
      refine ⟨rs, l, hs, line, rest, ⟨?_, ?_, hrs, hl, hhs, hcut⟩, ?_⟩
      · rw [h.bytes, List.append_assoc, hrest]
        simp [lines]
      · intro a ha
        rcases List.mem_append.mp ha with hold | hnew
        · exact h.plain a hold
        · rw [List.mem_singleton.mp hnew]
          exact hline
      · show (g.done ++ line ++ nuls).length + 0 = _
        rw [lines_append, List.length_append, List.length_append, List.length_append, h.length]
        simp [lines, nuls]
        omega
    · rw [if_neg hcut]
      refine ⟨fun _ _ heq => (by cases heq), ?_⟩
      intro g' heq
      cases heq
      refine ⟨Progress.valid_endLine _ _ _ _, rs ++ l :: hs ++ [line],
        h.endLine hrest hline rfl ?_⟩
      rw [List.append_assoc, List.cons_append]
      refine .header hrs hl ?_
      intro a ha
      rcases List.mem_append.mp ha with hold | hnew
      · exact hhs a hold
      · rw [List.mem_singleton.mp hnew]
        exact hcut

lemma Lined.turn (h : Lined g x ls) (hv : g.Valid) :
    (∀ code g', g.turn = .stop code g' → Consumes x code g') ∧
      ∀ g', g.turn = .go g' → g'.Valid ∧ ∃ ls', Lined g' x ls' := by
  have hof := scan_of g.rest
  cases hscan : scan g.rest with
  | more a held =>
    rw [Progress.turn_of_more hscan]
    rw [hscan] at hof
    refine ⟨?_, fun _ heq => by cases heq⟩
    intro code g' heq
    cases heq
    exact ⟨ls, h.upTo hof.1⟩
  | bad a rest =>
    rw [Progress.turn_of_bad hscan]
    rw [hscan] at hof
    refine ⟨?_, fun _ heq => by cases heq⟩
    intro code g' heq
    cases heq
    exact ⟨ls, h.upTo hof.1⟩
  | line a rest =>
    rw [Progress.turn_of_line hscan]
    rw [hscan] at hof
    obtain ⟨hrest, ha⟩ := hof
    apply h.turnLine
    · rw [hrest, List.append_assoc]
    · exact plain_append.mpr ⟨hv.plain, ha⟩

lemma Content.consumes (hc : Content g code g') (hv : g.Valid) (h : Lined g x ls) : Consumes x code g' := by
  induction hc generalizing ls with
  | stop hturn => exact (h.turn hv).1 _ _ hturn
  | go hturn _ ih =>
    obtain ⟨hv', ls', h'⟩ := (h.turn hv).2 _ hturn
    exact ih hv' h'

/-! ### Runs -/

namespace Connection

variable {s s' : Connection} {r : Recv} {chunk pad : Bytes}

/-- The bytes up to `checked_index` as they were received. -/
def consumed (s : Connection) : Bytes := s.received.take s.parser.checkedIndex

@[simp] lemma parser_answer (s : Connection) (code : HttpCode) : (s.answer code).parser = s.parser := by
  cases code <;> rfl

@[simp] lemma received_answer (s : Connection) (code : HttpCode) : (s.answer code).received = s.received := by
  cases code <;> rfl

@[simp] lemma results_answer (s : Connection) (code : HttpCode) : (s.answer code).results = s.results := by
  cases code <;> rfl

inductive Framed (s : Connection) : Prop
  | reading {g : Progress} {pad : Bytes} {ls : List Bytes} : s.parser.Shows g pad → g.Valid →
      Lined g s.received ls → .getRequest ∉ s.results → Framed s
  | ended {rs : List Bytes} {l : Bytes} {hs : List Bytes} {e rest : Bytes} :
      Reads s.received rs l hs e rest → s.consumed = lines (rs ++ l :: hs ++ [e]) → s.inLoop = false →
        Framed s

lemma framed_start : start.Framed := by
  have hlined : Lined (.start []) start.received [] := by
    refine ⟨rfl, rfl, ?_, .requestLine ?_⟩
    · exact List.forall_mem_nil _
    · exact List.forall_mem_nil _
  exact .reading Parser.shows_init (.start []) hlined List.not_mem_nil

/-- More bytes are received, and `parse_content` is called. -/
lemma framed_data {g : Progress} (h : s.parser.Shows g pad) (hv : g.Valid) (hl : Lined g s.received ls)
    (hget : .getRequest ∉ s.results) (hs : s.turn (.data chunk) = some s') : s'.Framed := by
  obtain ⟨p, result, parser, hp, hparse, rfl⟩ := turn_data hs
  obtain ⟨pad', hshows⟩ := shows_of_recv h hp
  have hv₁ : (g.append chunk).Valid := ⟨hv.plain, hv.last⟩
  have hl₁ : Lined (g.append chunk) (s.received ++ chunk) ls :=
    ⟨by simp [hl.bytes, Progress.append], hl.length, hl.plain, hl.taken⟩
  obtain ⟨code, g', q, hq, hc, hv', hshows'⟩ := Parser.parseContent_spec hshows hv₁
  cases hparse.symm.trans hq
  have hconsumes := hc.consumes hv₁ hl₁
  rw [Consumes] at hconsumes
  split at hconsumes
  next hcode =>
    subst hcode
    obtain ⟨rs, l, hs, e, rest, hreads, hlen⟩ := hconsumes
    refine .ended hreads ?_ rfl
    rw [consumed, received_answer, parser_answer]
    show (s.received ++ chunk).take parser.checkedIndex = _
    rw [hshows'.checkedIndex, hlen, hreads.bytes, List.take_left]
  next hcode =>
    obtain ⟨ls', hl'⟩ := hconsumes
    have hparser : ((s.parsed chunk result parser).answer result).parser.Shows g' pad' := by
      rw [parser_answer]
      exact hshows'
    have hlined : Lined g' ((s.parsed chunk result parser).answer result).received ls' := by
      rw [received_answer]
      exact hl'
    refine .reading hparser hv' hlined ?_
    rw [results_answer]
    intro hmem
    rcases List.mem_append.mp hmem with hold | hnew
    · exact hget hold
    · exact hcode (List.mem_singleton.mp hnew).symm

lemma Step.framed (hs : Step s r s') (h : s.Framed) : s'.Framed := by
  cases hs with
  | turn hin _ hturn =>
    cases h with
    | reading hshows hv hl hget =>
      cases r with
      | error =>
        cases hturn
        exact .reading hshows hv hl hget
      | closed =>
        cases hturn
        exact .reading hshows hv hl hget
      | data chunk => exact framed_data hshows hv hl hget hturn
    | ended _ _ hleft => cases hleft.symm.trans hin

/-- The loop goes on with all that fits into the buffer. -/
theorem run_turns {es : List Recv} (hrun : Trace Step start es s) (hin : s.inLoop = true)
    (hfit : s.parser.readIndex + chunk.length ≤ s.parser.buffer.length) :
    ∃ s', s.turn (.data chunk) = some s' := by
  have h : s.Framed := hrun.invariant (fun _ _ _ h hs => hs.framed h) framed_start
  cases h with
  | @reading g pad ls hshows hv _ _ =>
    have hlen : chunk.length ≤ pad.length := by
      rw [hshows.readIndex, hshows.buffer] at hfit
      simp only [List.length_append] at hfit
      omega
    obtain ⟨p, hp, hshows'⟩ := hshows.recv hlen
    obtain ⟨code, g', q, hq, -⟩ := Parser.parseContent_spec hshows' ⟨hv.plain, hv.last⟩
    exact ⟨_, turn_eq hp hq⟩
  | ended _ _ hleft => cases hleft.symm.trans hin

/-- When `parse_content` has returned `GET_REQUEST`, the bytes consumed end at their first blank line
if and only if it was no NUL that ended the header, and no blank line was refused before, but in front
of all others. -/
theorem run_endsAtBlankLine_iff {es : List Recv} (hrun : Trace Step start es s)
    (hget : .getRequest ∈ s.results) :
    EndsAtBlankLine s.consumed ↔ ¬ NulEndsHeader s.received ∧ ¬ RefusedBlank s.received := by
  have h : s.Framed := hrun.invariant (fun _ _ _ h hs => hs.framed h) framed_start
  cases h with
  | reading _ _ _ hno => exact absurd hget hno
  | ended hreads hconsumed =>
    rw [hconsumed, hreads.endsAtBlankLine_iff]
    rw [hreads.nulEndsHeader_iff, hreads.refusedBlank_iff, eq_nil_iff_of_cut hreads.last]

/-- A request that a blank line ends, received at once. -/
theorem run_endsAtBlankLine_iff_get : ∃ s : Connection,
    .getRequest ∈ s.results ∧ s.received = ascii "GET / HTTP/1.1\r\n\r\n".toList ∧
      (EndsAtBlankLine s.consumed ↔ ¬ NulEndsHeader s.received ∧ ¬ RefusedBlank s.received) := by
  have hfit : (ascii "GET / HTTP/1.1\r\n\r\n".toList).length ≤
      (List.replicate Parser.bufferSize (0 : UInt8)).length := by
    rw [List.length_replicate]
    decide
  obtain ⟨q, pad, hturn, -⟩ := turn_of_content (s := start) Parser.shows_init (.start []) hfit
    (.go rfl (.stop rfl))
  have hne : ascii "GET / HTTP/1.1\r\n\r\n".toList ≠ [] := by decide
  have hget : .getRequest ∈ [HttpCode.getRequest] := List.mem_singleton_self _
  have hrun : Trace Step start [.data (ascii "GET / HTTP/1.1\r\n\r\n".toList)] _ :=
    .cons (.turn rfl hne hturn) (.nil _)
  exact ⟨_, hget, rfl, run_endsAtBlankLine_iff hrun hget⟩

/-- The request is taken to end behind a line that begins with a NUL. -/
theorem run_notEndsAtBlankLine : ∃ s : Connection,
    Trace Step start [.data (ascii "GET / HTTP/1.1\r\n\x00Host: a\r\n".toList)] s ∧
      s.results = [.getRequest] ∧ s.consumed = ascii "GET / HTTP/1.1\r\n\x00Host: a\r\n".toList ∧
      ¬ EndsAtBlankLine s.consumed := by
  have hfit : (ascii "GET / HTTP/1.1\r\n\x00Host: a\r\n".toList).length ≤
      (List.replicate Parser.bufferSize (0 : UInt8)).length := by
    rw [List.length_replicate]
    decide
  obtain ⟨q, pad, hturn, hshows, -⟩ := turn_of_content (s := start) Parser.shows_init (.start []) hfit
    (.go rfl (.stop rfl))
  have hne : ascii "GET / HTTP/1.1\r\n\x00Host: a\r\n".toList ≠ [] := by decide
  have hconsumed : consumed ((start.parsed (ascii "GET / HTTP/1.1\r\n\x00Host: a\r\n".toList)
      .getRequest q).answer .getRequest) = ascii "GET / HTTP/1.1\r\n\x00Host: a\r\n".toList := by
    rw [consumed, received_answer, parser_answer]
    show List.take q.checkedIndex _ = _
    rw [hshows.checkedIndex]
    rfl
  refine ⟨_, .cons (.turn rfl hne hturn) (.nil _), rfl, hconsumed, ?_⟩
  rintro ⟨⟨a, ha⟩, -⟩
  rw [hconsumed] at ha
  have hend := congrArg (fun x => x.reverse.take 4) ha
  rw [List.reverse_append, List.take_append_of_le_length (by decide)] at hend
  exact absurd hend (by decide)

end Connection

end LinuxServer.ParseHttp
