import LinuxServer.HttpConn.Appending

/-!
# The responses of `process_write`

A response is a status line, the length of the body, whether the connection is kept, a blank line and the
body. What `process_write` returns says whether there is one to be sent.
-/

namespace LinuxServer.HttpConn.Answering

open Core

/-- `process_write` has not written yet. -/
structure Fresh (s : Answering) : Prop where
  length : s.writeBuf.length = writeBufferSize
  writeIdx : s.writeIdx = 0

/-- The status and the title of an answer. -/
def status : HttpCode → ℤ × Bytes
  | .internalError => (500, error500Title)
  | .badRequest => (400, error400Title)
  | .noResource => (404, error404Title)
  | .forbiddenRequest => (403, error403Title)
  | _ => (200, ok200Title)

/-- The body of an answer. -/
def body (mem : ℕ → Bytes) (s : Answering) : HttpCode → Bytes
  | .internalError => error500Form
  | .badRequest => error400Form
  | .noResource => error404Form
  | .forbiddenRequest => error403Form
  | _ =>
    if s.fileStat.size = 0 then okString else s.bytes mem ⟨.file s.fileAddress, s.fileStat.size⟩

/-- The answer as it is meant. -/
def reply (mem : ℕ → Bytes) (s : Answering) (ret : HttpCode) : Bytes :=
  statusLine (status ret).1 (status ret).2 ++ lengthLine (s.body mem ret).length ++
    connectionLine s.linger ++ crlf ++ s.body mem ret

/-- The answer is prepared, and is to be sent. -/
structure Responds (mem : ℕ → Bytes) (s : Answering) (ret : HttpCode) (result : Bool × Answering) :
    Prop where
  returned : result.1 = true
  offered : result.2.offered mem = s.reply mem ret

/-- The file is in memory. -/
def Mapped (mem : ℕ → Bytes) (s : Answering) : Prop :=
  (s.bytes mem ⟨.file s.fileAddress, s.fileStat.size⟩).length = s.fileStat.size

/-- What stands behind the first `name`, to the end of the line. -/
def valueBehind (name : Bytes) : Bytes → Option Bytes
  | [] => none
  | c :: cs =>
    if name <+: c :: cs then some (((c :: cs).drop name.length).takeWhile (· ≠ cr))
    else valueBehind name cs

/-- `"Content-Length: "` -/
def contentLengthName : Bytes := ascii "Content-Length: ".toList

variable {mem : ℕ → Bytes} {s t : Answering} {ret : HttpCode} {text name a b : Bytes} {c : UInt8} {n : ℤ}

/-! ### Numbers -/

lemma mem_toString {d : Char} (h : d ∈ (toString n).toList) : d = '-' ∨ d.isDigit = true := by
  cases n with
  | ofNat m =>
    right
    rw [show toString (Int.ofNat m) = Nat.repr m from rfl, Nat.toList_repr] at h
    exact Nat.isDigit_of_mem_toDigits (by decide) le_rfl h
  | negSucc m =>
    rw [show toString (Int.negSucc m) = "-" ++ Nat.repr (m + 1) from rfl, String.toList_append,
      Nat.toList_repr, List.mem_append] at h
    rcases h with h | h
    · exact .inl (List.mem_singleton.mp h)
    · exact .inr (Nat.isDigit_of_mem_toDigits (by decide) le_rfl h)

lemma toNat_of_mem_toString {d : Char} (h : d ∈ (toString n).toList) : 45 ≤ d.toNat ∧ d.toNat < 58 := by
  rcases mem_toString h with rfl | hdigit
  · decide
  · have hrange : 48 ≤ d.toNat ∧ d.toNat ≤ 57 := Char.isDigit_iff_toNat.mp hdigit
    omega

lemma decimal_injective : Function.Injective decimal := by
  intro m n h
  have hbyte : ∀ k : ℤ, ∀ d ∈ (toString k).toList, d.toNat < 256 := fun k d hd =>
    (toNat_of_mem_toString hd).2.trans (by decide)
  have hlist : (toString m).toList = (toString n).toList := by
    rw [← map_ascii (hbyte m), ← map_ascii (hbyte n)]
    exact congrArg _ h
  exact Int.repr_inj.mp (String.toList_inj.mp hlist)

lemma cr_notMem_decimal : cr ∉ decimal n := by
  intro hmem
  obtain ⟨d, hd, heq⟩ := List.mem_map.mp hmem
  have hrange := toNat_of_mem_toString hd
  have hmod : d.toNat % 2 ^ 8 = d.toNat := Nat.mod_eq_of_lt (by omega)
  have hthirteen : d.toNat = 13 := by
    rw [← hmod, ← UInt8.toNat_ofNat', heq]
    rfl
  omega

lemma length_decimal_le (h : n.natAbs < 10 ^ 10) : (decimal n).length ≤ 11 := by
  have hdigits : ∀ m < 10 ^ 10, (Nat.repr m).toList.length ≤ 10 := by
    intro m hm
    rw [Nat.toList_repr]
    exact (Nat.length_toDigits_le_iff (by decide) (by decide)).mpr hm
  rw [decimal, ascii, List.length_map]
  cases n with
  | ofNat m => exact (hdigits m h).trans (by decide)
  | negSucc m =>
    rw [show toString (Int.negSucc m) = "-" ++ Nat.repr (m + 1) from rfl, String.toList_append,
      List.length_append]
    exact Nat.add_le_add (le_refl 1) (hdigits (m + 1) h)

/-- A size that fits an `int`. -/
lemma toInt_eq_iff {size : ℕ} : toInt size = size ↔ size < 2 ^ 31 := by
  rw [toInt, BitVec.toInt_ofNat', Int.bmod_def]
  omega

lemma natAbs_toInt (size : ℕ) : (toInt size).natAbs < 10 ^ 10 := by
  have hlt := (BitVec.ofNat 32 size).toInt_lt
  have hle := (BitVec.ofNat 32 size).le_toInt
  rw [toInt]
  omega

/-! ### The value of a line -/

/-- A name does not begin where its first byte does not stand. -/
lemma valueBehind_append (hname : name.head? = some c) (ha : c ∉ a) :
    valueBehind name (a ++ b) = valueBehind name b := by
  obtain ⟨name, rfl⟩ := List.head?_eq_some_iff.mp hname
  induction a with
  | nil => rfl
  | cons d a ih =>
    have hnot : ¬ c :: name <+: d :: (a ++ b) := fun h =>
      List.ne_of_not_mem_cons ha (List.cons_prefix_cons.mp h).1
    rw [List.cons_append, valueBehind, if_neg hnot, ih (List.not_mem_of_not_mem_cons ha)]

lemma valueBehind_name (hne : name ≠ []) (ha : cr ∉ a) :
    valueBehind name (name ++ a ++ cr :: b) = some a := by
  cases name with
  | nil => exact absurd rfl hne
  | cons c name =>
    have hfront : c :: name <+: c :: (name ++ a ++ cr :: b) := by
      rw [List.append_assoc, ← List.cons_append]
      exact List.prefix_append _ _
    have hplain : ∀ d ∈ a, (decide (d ≠ cr)) = true := fun d hd =>
      decide_eq_true fun heq => ha (heq ▸ hd)
    rw [List.append_assoc, List.cons_append, ← List.append_assoc, valueBehind, if_pos hfront,
      List.append_assoc, ← List.cons_append, List.drop_left, List.takeWhile_append_of_pos hplain,
      List.takeWhile_cons_of_neg (by decide), List.append_nil]

lemma lengthLine_append : lengthLine n ++ b = contentLengthName ++ decimal n ++ cr :: lf :: b := by
  rw [lengthLine, List.append_assoc]
  rfl

/-! ### What is written -/

/-- A text that there is room for. -/
lemma Fits.append (h : s.Fits) (text : Bytes)
    (hroom : s.writeIdx + text.length < writeBufferSize - 1) :
    (s.addResponse text).1 = true ∧ (s.addResponse text).2.Fits ∧
      (s.addResponse text).2.writeIdx = s.writeIdx + text.length ∧
      (s.addResponse text).2.written = s.written ++ text := by
  obtain ⟨hatomic, hfits⟩ := h.addResponse text
  have hreturned : (s.addResponse text).1 = true := by
    rw [Answering.addResponse, if_neg (by omega)]
    dsimp only
    rw [if_neg (by omega)]
  obtain ⟨hidx, hwritten⟩ := hatomic.appended hreturned
  exact ⟨hreturned, hfits, hidx, hwritten⟩

lemma length_connectionLine_le (linger : Bool) : (connectionLine linger).length ≤ 24 := by
  cases linger <;> decide

lemma length_lengthLine_le (h : n.natAbs < 10 ^ 10) : (lengthLine n).length ≤ 29 := by
  have hdecimal := length_decimal_le h
  have hname : (ascii "Content-Length: ".toList).length = 16 := by decide
  have hcrlf : crlf.length = 2 := by decide
  rw [lengthLine, List.length_append, List.length_append, hname, hcrlf]
  omega

/-- The three lines of `add_headers`. -/
lemma Fits.addHeaders (h : s.Fits) (hroom : s.writeIdx < 1000) (hn : n.natAbs < 10 ^ 10) :
    (s.addHeaders lengthLine n).Fits ∧
      (s.addHeaders lengthLine n).written = s.written ++ lengthLine n ++ connectionLine s.linger ++ crlf := by
  have hsize : writeBufferSize = 2048 := rfl
  have hlength := length_lengthLine_le hn
  have hconnection := length_connectionLine_le s.linger
  have hcrlf : crlf.length = 2 := by decide
  obtain ⟨-, hfits, hidx, hwritten⟩ := h.append (lengthLine n) (by omega)
  obtain ⟨-, hfits', hidx', hwritten'⟩ := hfits.append (connectionLine s.linger) (by omega)
  obtain ⟨-, hfits'', -, hwritten''⟩ := hfits'.append crlf (by omega)
  have heq : s.addHeaders lengthLine n =
      (((s.addResponse (lengthLine n)).2.addResponse (connectionLine s.linger)).2.addResponse crlf).2 := by
    rw [← linger_addResponse s (lengthLine n)]
    rfl
  rw [heq]
  exact ⟨hfits'', by rw [hwritten'', hwritten', hwritten]⟩

/-- A status line in front of everything else. -/
lemma Fresh.addStatusLine (h : s.Fresh) : (s.addStatusLine 200 ok200Title).2.Fits ∧
    (s.addStatusLine 200 ok200Title).2.writeIdx < 1000 ∧
    (s.addStatusLine 200 ok200Title).2.written = statusLine 200 ok200Title := by
  have hfits : s.Fits := ⟨h.length, by rw [h.writeIdx]; exact Nat.zero_le _⟩
  have hlength : (statusLine 200 ok200Title).length = 17 := by decide
  have hempty : s.written = [] := by rw [written, h.writeIdx, List.take_zero]
  have hroom : s.writeIdx + (statusLine 200 ok200Title).length < writeBufferSize - 1 := by
    rw [h.writeIdx, hlength]
    decide
  obtain ⟨-, hfits', hidx, hwritten⟩ := hfits.append _ hroom
  rw [h.writeIdx, hlength] at hidx
  rw [hempty, List.nil_append] at hwritten
  exact ⟨hfits', hidx.trans_lt (by decide), hwritten⟩

/-- The response for a file. -/
lemma Fresh.file (h : s.Fresh) (mem : ℕ → Bytes) (hsize : s.fileStat.size ≠ 0) :
    (s.processWrite lengthLine .fileRequest).1 = true ∧
      (s.processWrite lengthLine .fileRequest).2.ivCount = 2 ∧
      (s.processWrite lengthLine .fileRequest).2.iv 1 = ⟨.file s.fileAddress, s.fileStat.size⟩ ∧
      (s.processWrite lengthLine .fileRequest).2.bytes mem
        ((s.processWrite lengthLine .fileRequest).2.iv 0) =
        statusLine 200 ok200Title ++ lengthLine (toInt s.fileStat.size) ++ connectionLine s.linger ++
          crlf := by
  obtain ⟨hfits, hlow, hwritten⟩ := h.addStatusLine
  obtain ⟨buf, idx, heq⟩ := addResponse_eq s (statusLine 200 ok200Title)
  have hstatus : (s.addStatusLine 200 ok200Title).2 = { s with writeBuf := buf, writeIdx := idx } := heq
  obtain ⟨-, hhead⟩ := hfits.addHeaders hlow (natAbs_toInt s.fileStat.size)
  obtain ⟨buf', idx', heq'⟩ := addHeaders_eq (s.addStatusLine 200 ok200Title).2 lengthLine
    (toInt s.fileStat.size)
  have hheaders : (s.addStatusLine 200 ok200Title).2.addHeaders lengthLine (toInt s.fileStat.size) =
      { s with writeBuf := buf', writeIdx := idx' } := by
    rw [heq', hstatus]
  have hresult : s.processWrite lengthLine .fileRequest = (true, { s with
      writeBuf := buf'
      writeIdx := idx'
      iv := Function.update (Function.update s.iv 0 ⟨.writeBuf, idx'⟩) 1
        ⟨.file s.fileAddress, s.fileStat.size⟩
      ivCount := 2 }) := by
    have hstat : (s.addStatusLine 200 ok200Title).2.fileStat = s.fileStat := by rw [hstatus]
    rw [processWrite]
    dsimp only
    rw [hstat, if_pos hsize, hheaders]
  have hlinger : (s.addStatusLine 200 ok200Title).2.linger = s.linger := by rw [hstatus]
  rw [hheaders, hwritten, hlinger] at hhead
  rw [hresult]
  rw [← hhead]
  refine ⟨rfl, rfl, ?_, ?_⟩
  · dsimp only
    rw [Function.update_self]
  · dsimp only
    rw [Function.update_of_ne (by decide), Function.update_self]
    rfl

lemma bytes_file (address : Option ℕ) (len : ℕ) :
    t.bytes mem ⟨.file address, len⟩ = s.bytes mem ⟨.file address, len⟩ := by
  cases address <;> rfl

/-- What `writev` is offered of a response of two pieces. -/
lemma offered_two (hcount : s.ivCount = 2) :
    s.offered mem = s.bytes mem (s.iv 0) ++ s.bytes mem (s.iv 1) := by
  rw [offered, hcount]
  exact congrArg (s.bytes mem (s.iv 0) ++ ·) (List.append_nil _)

/-! ### The responses -/

/-- From a fresh connection, `process_write` prepares the response and returns true if and only if the
request is for a file that is not empty. -/
theorem processWrite_responds_iff (h : s.Fresh) (hsize : s.fileStat.size < 2 ^ 31)
    (hmapped : ret = .fileRequest → s.Mapped mem) :
    s.Responds mem ret (s.processWrite lengthLine ret) ↔
      ret = .fileRequest ∧ s.fileStat.size ≠ 0 := by
  constructor
  · exact fun hmeets => (processWrite_fst s lengthLine ret).mp hmeets.returned
  · rintro ⟨rfl, hne⟩
    obtain ⟨hreturned, hcount, hbody, hhead⟩ := h.file mem hne
    have hfile : s.body mem .fileRequest = s.bytes mem ⟨.file s.fileAddress, s.fileStat.size⟩ := if_neg hne
    have hlength : (s.body mem .fileRequest).length = s.fileStat.size := by
      rw [hfile]
      exact hmapped rfl
    refine ⟨hreturned, ?_⟩
    rw [offered_two hcount, hhead, hbody, bytes_file (s := s), reply, hlength,
      toInt_eq_iff.mpr hsize, hfile]
    rfl

lemma fresh_found : found.Fresh := ⟨List.length_replicate, rfl⟩

lemma mapped_found : found.Mapped abc := rfl

theorem processWrite_responds_found :
    found.Responds abc .fileRequest (found.processWrite lengthLine .fileRequest) :=
  (processWrite_responds_iff fresh_found (by decide) fun _ => mapped_found).mpr ⟨rfl, by decide⟩

/-- The answer to a bad request is prepared, and not sent. -/
theorem processWrite_notResponds :
    ¬ found.Responds abc .badRequest (found.processWrite lengthLine .badRequest) := by
  intro hmeets
  cases ((processWrite_fst found lengthLine .badRequest).mp hmeets.returned).1

/-- The number that is printed, and the piece that the file is sent as. -/
lemma Fresh.prints_iff (h : s.Fresh) (hsize : s.fileStat.size ≠ 0) :
    let t := (s.processWrite lengthLine .fileRequest).2
    valueBehind contentLengthName (t.bytes mem (t.iv 0)) = some (decimal (t.iv 1).len) ↔
      toInt s.fileStat.size = s.fileStat.size := by
  intro t
  obtain ⟨-, -, hbody, hhead⟩ := h.file mem hsize
  have hstatus : (67 : UInt8) ∉ statusLine 200 ok200Title := by decide
  rw [hhead, hbody, List.append_assoc, List.append_assoc, valueBehind_append (by decide) hstatus,
    lengthLine_append, valueBehind_name (by decide) cr_notMem_decimal, Option.some_inj,
    decimal_injective.eq_iff]

/-- From a fresh connection, the number that is printed for a file that is not empty is the length of the
piece that the file is sent as if and only if the size fits an `int`. -/
theorem processWrite_length_iff (h : s.Fresh) (hsize : s.fileStat.size ≠ 0) :
    let t := (s.processWrite lengthLine .fileRequest).2
    valueBehind contentLengthName (t.bytes mem (t.iv 0)) = some (decimal (t.iv 1).len) ↔
      s.fileStat.size < 2 ^ 31 :=
  (h.prints_iff hsize).trans toInt_eq_iff

theorem processWrite_length_found :
    let t := (found.processWrite lengthLine .fileRequest).2
    valueBehind contentLengthName (t.bytes abc (t.iv 0)) = some (decimal (t.iv 1).len) :=
  (processWrite_length_iff fresh_found (by decide)).mpr (by decide)

/-- A file of 2 GiB. -/
def large : Answering := { found with fileStat := ⟨2 ^ 31⟩ }

theorem processWrite_notLength :
    let t := (large.processWrite lengthLine .fileRequest).2
    valueBehind contentLengthName (t.bytes abc (t.iv 0)) ≠ some (decimal (t.iv 1).len) := by
  have hfresh : large.Fresh := ⟨List.length_replicate, rfl⟩
  intro t heq
  exact absurd ((hfresh.prints_iff (by decide)).mp heq) (by decide)

end LinuxServer.HttpConn.Answering
