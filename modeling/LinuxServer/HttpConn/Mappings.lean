import LinuxServer.HttpConn.Answers

/-!
# The mappings of the connections

`do_request` maps a file and keeps the address in `m_file_address`; `unmap` is called from `write`,
when an error ends it. Neither `close_conn` nor `init` looks at `m_file_address`, and `do_request`
sets it whatever it was. So a mapping is lost when its connection is closed in another way
than behind that error of `write`, and when `do_request` is called once more.
-/

namespace LinuxServer.HttpConn

open Core

open Answering (Writev Effect)

/-- The objects, which of them were initialised, and what is mapped: the size by the address. -/
structure Mappings (K : Type*) where
  conn : K → Serving
  initialised : K → Bool
  live : ℕ → Option ℕ

namespace Mappings

variable {K : Type*}

/-- The constructor sets nothing. -/
def start (conn : K → Serving) : Mappings K where
  conn := conn
  initialised _ := false
  live _ := none

/-- The object is a connection: it was initialised and is not closed. -/
def IsOpen (s : Mappings K) (k : K) : Prop := s.initialised k = true ∧ (s.conn k).mSockfd ≠ none

/-- What `mmap` leaves. -/
def mmap (live : ℕ → Option ℕ) : Option (ℕ × ℕ) → ℕ → Option ℕ
  | none => live
  | some (address, size) => Function.update live address (some size)

/-- What the calls of `munmap` leave. -/
def munmap (live : ℕ → Option ℕ) : List Effect → ℕ → Option ℕ
  | [] => live
  | .modFd _ :: effects => munmap live effects
  | .munmap address _ :: effects => munmap (Function.update live address none) effects

inductive Event (K : Type*)
  | init (k : K) (sockfd : ℕ)
  | receive (k : K) (chunk : Bytes)
  | process (k : K) (fs : FileSystem)
  | write (k : K) (rs : List Writev)
  | closeConn (k : K)

variable [DecidableEq K]

/-- The object `k` is what a call has left. -/
def set (s : Mappings K) (k : K) (conn : Serving) : Mappings K :=
  { s with conn := Function.update s.conn k conn }

/-- `init` of the object `k`. -/
def init (s : Mappings K) (k : K) (sockfd : ℕ) : Mappings K :=
  { s.set k ((s.conn k).initConn sockfd) with initialised := Function.update s.initialised k true }

/-- Calls that return. `mmap` succeeds: it maps a file that is not empty, at an address where nothing is
mapped. -/
inductive Step (lengthLine : ℤ → Bytes) : Mappings K → Event K → Mappings K → Prop
  | init {s : Mappings K} {k : K} {sockfd : ℕ} : ¬ s.IsOpen k →
      Step lengthLine s (.init k sockfd) (s.init k sockfd)
  | receive {s : Mappings K} {k : K} {chunk : Bytes} : s.initialised k = true →
      Step lengthLine s (.receive k chunk) (s.set k ((s.conn k).receive chunk))
  | process {s : Mappings K} {k : K} {fs : FileSystem} {p : Serving.Processed} :
      s.initialised k = true → (s.conn k).process lengthLine fs = some p →
      (∀ address size, p.lookup.mapped = some (address, size) → size ≠ 0 ∧ s.live address = none) →
        Step lengthLine s (.process k fs) { s.set k p.conn with live := mmap s.live p.lookup.mapped }
  | write {s : Mappings K} {k : K} {rs : List Writev} {effects : List Effect} {returned : Bool}
      {conn : Serving} :
      s.initialised k = true → (s.conn k).write rs = (effects, some returned, conn) →
        Step lengthLine s (.write k rs) { s.set k conn with live := munmap s.live effects }
  | closeConn {s : Mappings K} {k : K} : s.initialised k = true →
      Step lengthLine s (.closeConn k) (s.set k (s.conn k).closeConn)

omit [DecidableEq K] in
/-- What is mapped are the addresses that the open connections hold, each of them held once, and
`munmap` is called for what is mapped. -/
structure Released (s : Mappings K) (e : Event K) (s' : Mappings K) : Prop where
  exact : ∀ address, s'.live address ≠ none ↔
    ∃ k, s'.IsOpen k ∧ (s'.conn k).fileAddress = some address
  one : ∀ k k' address, s'.IsOpen k → s'.IsOpen k' → (s'.conn k).fileAddress = some address →
    (s'.conn k').fileAddress = some address → k = k'
  munmap : ∀ k rs, e = .write k rs → ∀ address size,
    Effect.munmap address size ∈ ((s.conn k).write rs).1 → s.live address = some size

/-- A call that loses no mapping: an object has no address when it is initialised, when a connection of
it is closed, and when what stands in its read buffer is answered, for an open connection if there is a
file to be mapped. -/
def Clean (s : Mappings K) : Event K → Prop
  | .init k _ => (s.conn k).fileAddress = none
  | .process k fs => (s.conn k).Answers →
    (s.conn k).fileAddress = none ∧ ((s.conn k).FindsFile fs → (s.conn k).mSockfd ≠ none)
  | .closeConn k => (s.conn k).mSockfd ≠ none → (s.conn k).fileAddress = none
  | _ => True

end Mappings

namespace Answering

/-! ### What the calls do to `m_file_address` -/

lemma processWrite_file (s : Answering) (lengthLine : ℤ → Bytes) (ret : HttpCode) :
    (s.processWrite lengthLine ret).2.fileAddress = s.fileAddress ∧
      (s.processWrite lengthLine ret).2.fileStat = s.fileStat := by
  obtain ⟨_, _, _, _, heq⟩ := processWrite_eq s lengthLine ret
  rw [heq]
  exact ⟨rfl, rfl⟩

end Answering

namespace Serving

variable {s s' : Serving} {fs : FileSystem} {l : Lookup}

/-- What a call leaves of the mapping and the socket, when it leaves both. -/
structure Keeps (s s' : Serving) : Prop where
  fileAddress : s'.fileAddress = s.fileAddress
  fileStat : s'.fileStat = s.fileStat
  mSockfd : s'.mSockfd = s.mSockfd

/-- No file was mapped. -/
structure MapsNone (s : Serving) (l : Lookup) : Prop where
  code : l.code ≠ .fileRequest
  mapped : l.mapped = none
  fileAddress : l.conn.fileAddress = s.fileAddress
  noRequest : l.code = .noRequest → s.Keeps l.conn

/-- A file was mapped. -/
structure Maps (s : Serving) (l : Lookup) (address size : ℕ) : Prop where
  code : l.code = .fileRequest
  mapped : l.mapped = some (address, size)
  fileAddress : l.conn.fileAddress = some address
  fileStat : l.conn.fileStat.size = size
  mSockfd : l.conn.mSockfd = s.mSockfd

lemma openFile_cases (s : Serving) (fs : FileSystem) (path : Bytes) :
    s.MapsNone (s.openFile fs path) ∨ ∃ address size, s.Maps (s.openFile fs path) address size := by
  rw [openFile]
  cases fs.stat path with
  | none => exact .inl ⟨by simp, rfl, rfl, by simp⟩
  | some st =>
    dsimp only
    split
    · exact .inl ⟨by simp, rfl, rfl, by simp⟩
    · split
      · exact .inl ⟨by simp, rfl, rfl, by simp⟩
      · exact .inr ⟨_, _, rfl, rfl, rfl, rfl, rfl⟩

lemma doRequest_cases (h : s.doRequest fs = some l) :
    s.MapsNone l ∨ ∃ address size, s.Maps l address size := by
  obtain ⟨url, -, h⟩ := Option.bind_eq_some_iff.mp h
  obtain ⟨name, -, h⟩ := Option.bind_eq_some_iff.mp h
  obtain ⟨path, -, h⟩ := Option.bind_eq_some_iff.mp h
  cases h
  rcases openFile_cases (s.setRealFile name) fs path with hnone | ⟨address, size, hmaps⟩
  · exact .inl ⟨hnone.code, hnone.mapped, hnone.fileAddress, fun hcode =>
      ⟨hnone.fileAddress, (hnone.noRequest hcode).fileStat, (hnone.noRequest hcode).mSockfd⟩⟩
  · exact .inr ⟨address, size, hmaps.code, hmaps.mapped, hmaps.fileAddress, hmaps.fileStat, hmaps.mSockfd⟩

lemma readRequest_cases (h : s.readRequest fs = some l) :
    s.MapsNone l ∨ ∃ address size, s.Maps l address size := by
  obtain ⟨call, hcall, h⟩ := Option.bind_eq_some_iff.mp h
  obtain ⟨returned, hreturned, h⟩ := Option.bind_eq_some_iff.mp h
  cases returned with
  | code code =>
    cases h
    refine .inl ⟨?_, rfl, rfl, fun _ => ⟨rfl, rfl, rfl⟩⟩
    rcases processRead_code hcall hreturned with hcode | hcode
    · rw [hcode]
      exact nofun
    · rw [hcode]
      exact nofun
  | doRequest =>
    rcases doRequest_cases h with hnone | ⟨address, size, hmaps⟩
    · exact .inl ⟨hnone.code, hnone.mapped, hnone.fileAddress, fun hcode =>
        ⟨hnone.fileAddress, (hnone.noRequest hcode).fileStat, (hnone.noRequest hcode).mSockfd⟩⟩
    · exact .inr ⟨address, size, hmaps.code, hmaps.mapped, hmaps.fileAddress, hmaps.fileStat,
        hmaps.mSockfd⟩

lemma answer_of_ne (lengthLine : ℤ → Bytes) (hcode : l.code ≠ .noRequest) : answer lengthLine l =
    ⟨l, some (l.conn.processWrite lengthLine l.code).1,
      if (l.conn.processWrite lengthLine l.code).1 = false then
        { l.conn with toAnswering := (l.conn.processWrite lengthLine l.code).2, mSockfd := none }
      else
        { l.conn with toAnswering := (l.conn.processWrite lengthLine l.code).2 }⟩ := if_neg hcode

/-- An answer that is not a file closes the connection. -/
lemma MapsNone.answer (h : s.MapsNone l) (lengthLine : ℤ → Bytes) (hcode : l.code ≠ .noRequest) :
    (answer lengthLine l).conn.fileAddress = s.fileAddress ∧
      (answer lengthLine l).conn.mSockfd = none := by
  have hfalse : (l.conn.processWrite lengthLine l.code).1 = false := by
    rw [← Bool.not_eq_true, Answering.processWrite_fst]
    exact fun hfile => h.code hfile.1
  rw [answer_of_ne lengthLine hcode, if_pos hfalse]
  exact ⟨(Answering.processWrite_file _ _ _).1.trans h.fileAddress, rfl⟩

/-- A file that is not empty is kept for the answer. -/
lemma Maps.answer {address size : ℕ} (h : s.Maps l address size) (lengthLine : ℤ → Bytes)
    (hsize : size ≠ 0) :
    (answer lengthLine l).conn.fileAddress = some address ∧
      (answer lengthLine l).conn.fileStat.size = size ∧
      (answer lengthLine l).conn.mSockfd = s.mSockfd := by
  have hcode : l.code ≠ .noRequest := by
    rw [h.code]
    exact nofun
  have htrue : (l.conn.processWrite lengthLine l.code).1 = true := by
    rw [Answering.processWrite_fst, h.fileStat]
    exact ⟨h.code, hsize⟩
  obtain ⟨haddress, hstat⟩ := l.conn.processWrite_file lengthLine l.code
  rw [answer_of_ne lengthLine hcode, if_neg (by rw [htrue]; exact nofun)]
  refine ⟨haddress.trans h.fileAddress, ?_, h.mSockfd⟩
  rw [← h.fileStat]
  exact congrArg FileStat.size hstat

/-- `write` calls `munmap` for the file that it has, if at all. -/
structure Unmaps (s : Answering) (effects : List Effect) (s' : Answering) (address : ℕ) : Prop where
  before : s.fileAddress = some address
  effects : effects = [.munmap address s.fileStat.size]
  after : s'.fileAddress = none

/-- `write` leaves the file as it is. -/
structure UnmapsNone (s : Answering) (effects : List Effect) (s' : Answering) : Prop where
  effects : effects = [] ∨ ∃ ev, effects = [.modFd ev]
  fileAddress : s'.fileAddress = s.fileAddress
  fileStat : s'.fileStat = s.fileStat

lemma writeLoop_cases : ∀ {rs : List Writev} {s s' : Answering} {effects : List Effect} {returned : Bool},
    writeLoop s rs = (effects, some returned, s') →
      UnmapsNone s effects s' ∨ ∃ address, Unmaps s effects s' address := by
  intro rs
  induction rs with
  | nil => exact nofun
  | cons r rs ih =>
    intro s s' effects returned h
    cases r with
    | sent n => exact ih h
    | eagain =>
      cases h
      exact .inl ⟨.inr ⟨_, rfl⟩, rfl, rfl⟩
    | error =>
      rw [writeLoop, Answering.writeTurn, Answering.unmap] at h
      cases haddress : s.fileAddress with
      | none =>
        rw [haddress] at h
        cases h
        exact .inl ⟨.inl rfl, rfl, rfl⟩
      | some address =>
        rw [haddress] at h
        cases h
        exact .inr ⟨address, haddress, rfl, rfl⟩

lemma write_cases {rs : List Writev} {effects : List Effect} {returned : Bool}
    (h : s.write rs = (effects, some returned, s')) : s'.mSockfd = s.mSockfd ∧
      (UnmapsNone s.toAnswering effects s'.toAnswering ∨
        ∃ address, Unmaps s.toAnswering effects s'.toAnswering address) := by
  rw [write, Answering.writeBegin] at h
  split at h
  next heq =>
    split at heq
    · cases heq
      cases h
      exact ⟨rfl, .inl ⟨.inr ⟨_, rfl⟩, rfl, rfl⟩⟩
    · cases heq
  next heq =>
    split at heq
    · cases heq
    · cases heq
      generalize hloop : writeLoop s.toAnswering rs = x at h
      obtain ⟨effects', returned', a⟩ := x
      cases h
      exact ⟨rfl, writeLoop_cases hloop⟩

end Serving

namespace Mappings

variable {K : Type*} {s s' : Mappings K} {k : K} {e : Event K} {address size : ℕ}

/-! ### Who holds what is mapped -/

/-- The connection `k` is open and holds a mapping. -/
def Holds (s : Mappings K) (k : K) (address size : ℕ) : Prop :=
  s.IsOpen k ∧ (s.conn k).fileAddress = some address ∧ (s.conn k).fileStat.size = size

/-- What is mapped is held by one open connection, and a closed connection has no address. -/
structure Accounted (s : Mappings K) : Prop where
  held : ∀ k address size, s.Holds k address size → s.live address = some size
  owner : ∀ address size, s.live address = some size → ∃ k, s.Holds k address size
  one : ∀ k k' address size size', s.Holds k address size → s.Holds k' address size' → k = k'
  closed : ∀ k, s.initialised k = true → (s.conn k).mSockfd = none → (s.conn k).fileAddress = none

/-- Nothing but the object `k` is changed. -/
structure Others (s s' : Mappings K) (k : K) : Prop where
  conn : ∀ j, j ≠ k → s'.conn j = s.conn j
  initialised : ∀ j, j ≠ k → s'.initialised j = s.initialised j

lemma Others.holds_iff (h : s.Others s' k) {j : K} (hj : j ≠ k) :
    s'.Holds j address size ↔ s.Holds j address size := by
  rw [Holds, Holds, IsOpen, IsOpen, h.conn j hj, h.initialised j hj]

lemma Accounted.released (h : s'.Accounted) (hmunmap : ∀ k rs, e = .write k rs → ∀ address size,
    Effect.munmap address size ∈ ((s.conn k).write rs).1 → s.live address = some size) :
    s.Released e s' := by
  refine ⟨fun address => ⟨fun hlive => ?_, ?_⟩, ?_, hmunmap⟩
  · obtain ⟨size, hsize⟩ := Option.ne_none_iff_exists'.mp hlive
    obtain ⟨k, hopen, haddress, -⟩ := h.owner address size hsize
    exact ⟨k, hopen, haddress⟩
  · rintro ⟨k, hopen, haddress⟩
    rw [h.held k address _ ⟨hopen, haddress, rfl⟩]
    exact nofun
  · intro k k' address hopen hopen' haddress haddress'
    exact h.one k k' address _ _ ⟨hopen, haddress, rfl⟩ ⟨hopen', haddress', rfl⟩

/-- A step after which every connection holds what it held. -/
lemma Accounted.congr (h : s.Accounted) (hlive : s'.live = s.live)
    (hholds : ∀ j address size, s'.Holds j address size ↔ s.Holds j address size)
    (hclosed : ∀ j, s'.initialised j = true → (s'.conn j).mSockfd = none →
      (s'.conn j).fileAddress = none) : s'.Accounted where
  held j address size hj := by
    rw [hlive]
    exact h.held j address size ((hholds j address size).mp hj)
  owner address size hsize := by
    rw [hlive] at hsize
    obtain ⟨j, hj⟩ := h.owner address size hsize
    exact ⟨j, (hholds j address size).mpr hj⟩
  one j j' address size size' hj hj' :=
    h.one j j' address size size' ((hholds j address size).mp hj) ((hholds j' address size').mp hj')
  closed := hclosed

/-- A step that changes one object leaves the closed ones without an address. -/
lemma Accounted.closed_of_others (h : s.Accounted) (ho : s.Others s' k)
    (hk : (s'.conn k).mSockfd = none → s'.initialised k = true → (s'.conn k).fileAddress = none) (j : K)
    (hinit : s'.initialised j = true) (hsock : (s'.conn j).mSockfd = none) :
    (s'.conn j).fileAddress = none := by
  by_cases hj : j = k
  · subst hj
    exact hk hsock hinit
  · rw [ho.conn j hj] at hsock ⊢
    rw [ho.initialised j hj] at hinit
    exact h.closed j hinit hsock

/-- The object is changed, and holds what it held. -/
lemma Accounted.keeps (h : s.Accounted) (ho : s.Others s' k) (hlive : s'.live = s.live)
    (hinit : s'.initialised k = s.initialised k) (hk : (s.conn k).Keeps (s'.conn k)) : s'.Accounted := by
  refine h.congr hlive (fun j address size => ?_) (h.closed_of_others ho fun hsock hinit' => ?_)
  · by_cases hj : j = k
    · subst hj
      rw [Holds, Holds, IsOpen, IsOpen, hinit, hk.mSockfd, hk.fileAddress, hk.fileStat]
    · exact ho.holds_iff hj
  · rw [hk.fileAddress]
    exact h.closed k (hinit.symm.trans hinit') (hk.mSockfd.symm.trans hsock)

/-- The object held nothing, and holds nothing. -/
lemma Accounted.clear (h : s.Accounted) (ho : s.Others s' k) (hlive : s'.live = s.live)
    (hbefore : (s.conn k).fileAddress = none) (hafter : (s'.conn k).fileAddress = none) :
    s'.Accounted := by
  refine h.congr hlive (fun j address size => ?_) (h.closed_of_others ho fun _ _ => hafter)
  by_cases hj : j = k
  · subst hj
    rw [Holds, Holds, hbefore, hafter]
    exact iff_of_false (fun hholds => nomatch hholds.2.1) (fun hholds => nomatch hholds.2.1)
  · exact ho.holds_iff hj

/-- The object holds what was mapped for it. -/
lemma Accounted.map (h : s.Accounted) (ho : s.Others s' k)
    (hlive : s'.live = Function.update s.live address (some size)) (hfree : s.live address = none)
    (hbefore : (s.conn k).fileAddress = none) (hafter : s'.Holds k address size) : s'.Accounted := by
  have hother : ∀ j address' size', j ≠ k → s'.Holds j address' size' →
      address' ≠ address ∧ s.live address' = some size' := by
    intro j address' size' hj hholds
    have hmapped := h.held j address' size' ((ho.holds_iff hj).mp hholds)
    refine ⟨?_, hmapped⟩
    rintro rfl
    cases hfree.symm.trans hmapped
  have hk : ∀ address' size', s'.Holds k address' size' → address' = address ∧ size' = size := by
    intro address' size' hholds
    exact ⟨Option.some.inj (hholds.2.1.symm.trans hafter.2.1), hholds.2.2.symm.trans hafter.2.2⟩
  refine ⟨fun j address' size' hj => ?_, fun address' size' hlive' => ?_,
    fun i j address' size' size'' hi hj => ?_, h.closed_of_others ho fun hsock _ => ?_⟩
  · rw [hlive]
    by_cases hjk : j = k
    · subst hjk
      obtain ⟨rfl, rfl⟩ := hk address' size' hj
      exact Function.update_self _ _ _
    · obtain ⟨hne, hmapped⟩ := hother j address' size' hjk hj
      rw [Function.update_of_ne hne, hmapped]
  · rw [hlive] at hlive'
    by_cases haddress : address' = address
    · subst haddress
      rw [Function.update_self] at hlive'
      cases hlive'
      exact ⟨k, hafter⟩
    · rw [Function.update_of_ne haddress] at hlive'
      obtain ⟨j, hj⟩ := h.owner address' size' hlive'
      have hjk : j ≠ k := by
        rintro rfl
        cases hbefore.symm.trans hj.2.1
      exact ⟨j, (ho.holds_iff hjk).mpr hj⟩
  · by_cases hik : i = k
    · by_cases hjk : j = k
      · rw [hik, hjk]
      · subst hik
        exact absurd (hk address' size' hi).1 (hother j address' size'' hjk hj).1
    · by_cases hjk : j = k
      · subst hjk
        exact absurd (hk address' size'' hj).1 (hother i address' size' hik hi).1
      · exact h.one i j address' size' size'' ((ho.holds_iff hik).mp hi) ((ho.holds_iff hjk).mp hj)
  · exact absurd hsock hafter.1.2

/-- What the object held is unmapped. -/
lemma Accounted.unmap (h : s.Accounted) (ho : s.Others s' k)
    (hlive : s'.live = Function.update s.live address none) (hbefore : s.Holds k address size)
    (hafter : (s'.conn k).fileAddress = none) : s'.Accounted := by
  have hk : ∀ j address' size', s'.Holds j address' size' → j ≠ k := by
    rintro j address' size' hj rfl
    cases hafter.symm.trans hj.2.1
  refine ⟨fun j address' size' hj => ?_, fun address' size' hlive' => ?_,
    fun i j address' size' size'' hi hj => ?_, h.closed_of_others ho fun _ _ => hafter⟩
  · have hjk := hk j address' size' hj
    have hholds := (ho.holds_iff hjk).mp hj
    have hne : address' ≠ address := by
      rintro rfl
      exact hjk (h.one j k address' size' size hholds hbefore)
    rw [hlive, Function.update_of_ne hne]
    exact h.held j address' size' hholds
  · rw [hlive] at hlive'
    have hne : address' ≠ address := by
      rintro rfl
      rw [Function.update_self] at hlive'
      cases hlive'
    rw [Function.update_of_ne hne] at hlive'
    obtain ⟨j, hj⟩ := h.owner address' size' hlive'
    have hjk : j ≠ k := by
      rintro rfl
      exact hne (Option.some.inj (hj.2.1.symm.trans hbefore.2.1))
    exact ⟨j, (ho.holds_iff hjk).mpr hj⟩
  · exact h.one i j address' size' size'' ((ho.holds_iff (hk i _ _ hi)).mp hi)
      ((ho.holds_iff (hk j _ _ hj)).mp hj)

/-- What was mapped for the connection is mapped still, and the connection holds it no longer. -/
lemma Accounted.not_released (h : s.Accounted) (ho : s.Others s' k) (hholds : s.Holds k address size)
    (hlive : s'.live address = s.live address)
    (hlost : s'.IsOpen k → (s'.conn k).fileAddress ≠ some address) : ¬ s.Released e s' := by
  intro hr
  have hmapped : s'.live address ≠ none := by
    rw [hlive, h.held k address size hholds]
    exact nofun
  obtain ⟨j, hj, hj'⟩ := (hr.exact address).mp hmapped
  by_cases hjk : j = k
  · subst hjk
    exact hlost hj hj'
  · exact hjk (h.one j k address _ size ((ho.holds_iff hjk).mp ⟨hj, hj', rfl⟩) hholds)

/-- The connection is closed and keeps its address: a mapping is lost if it had one. -/
lemma Accounted.closed_iff (h : s.Accounted) (ho : s.Others s' k) (hlive : s'.live = s.live)
    (hinit : s.initialised k = true) (haddress : (s'.conn k).fileAddress = (s.conn k).fileAddress)
    (hsock : (s'.conn k).mSockfd = none) (hwrite : ∀ j rs, e ≠ .write j rs) :
    (s.Released e s' ↔ (s.conn k).fileAddress = none) ∧
      ((s.conn k).fileAddress = none → s'.Accounted) := by
  have hkeep : (s.conn k).fileAddress = none → s'.Accounted := fun hnone =>
    h.clear ho hlive hnone (haddress.trans hnone)
  refine ⟨⟨fun hr => ?_, fun hnone => ?_⟩, hkeep⟩
  · by_contra hne
    obtain ⟨address, hbefore⟩ := Option.ne_none_iff_exists'.mp hne
    have hopen : (s.conn k).mSockfd ≠ none := fun hclosed => hne (h.closed k hinit hclosed)
    exact h.not_released ho ⟨⟨hinit, hopen⟩, hbefore, rfl⟩ (congrFun hlive address)
      (fun hopen' => absurd hsock hopen'.2) hr
  · exact (hkeep hnone).released fun j rs he => absurd he (hwrite j rs)

/-- The object gets what is mapped: a mapping is lost if it had one, and if it is not open nobody has
the new one. -/
lemma Accounted.mapped_iff (h : s.Accounted) (ho : s.Others s' k)
    (hlive : s'.live = Function.update s.live address (some size)) (hfree : s.live address = none)
    (hinit' : s'.initialised k = s.initialised k) (hinit : s.initialised k = true)
    (hsock : (s'.conn k).mSockfd = (s.conn k).mSockfd)
    (haddress : (s'.conn k).fileAddress = some address) (hstat : (s'.conn k).fileStat.size = size)
    (hwrite : ∀ j rs, e ≠ .write j rs) :
    (s.Released e s' ↔ (s.conn k).fileAddress = none ∧ (s.conn k).mSockfd ≠ none) ∧
      ((s.conn k).fileAddress = none ∧ (s.conn k).mSockfd ≠ none → s'.Accounted) := by
  have hkeep : (s.conn k).fileAddress = none ∧ (s.conn k).mSockfd ≠ none → s'.Accounted := by
    rintro ⟨hbefore, hopen⟩
    refine h.map ho hlive hfree hbefore ⟨⟨hinit'.trans hinit, ?_⟩, haddress, hstat⟩
    rw [hsock]
    exact hopen
  refine ⟨⟨fun hr => ?_, fun hclean => ?_⟩, hkeep⟩
  · have hopen : (s.conn k).mSockfd ≠ none := by
      intro hclosed
      have hlive' : s'.live address ≠ none := by
        rw [hlive, Function.update_self]
        exact nofun
      obtain ⟨j, hj, hj'⟩ := (hr.exact address).mp hlive'
      by_cases hjk : j = k
      · subst hjk
        exact hj.2 (hsock.trans hclosed)
      · have hholds := (ho.holds_iff hjk).mp ⟨hj, hj', rfl⟩
        cases hfree.symm.trans (h.held j address _ hholds)
    refine ⟨?_, hopen⟩
    by_contra hne
    obtain ⟨address', hbefore⟩ := Option.ne_none_iff_exists'.mp hne
    have hholds : s.Holds k address' (s.conn k).fileStat.size := ⟨⟨hinit, hopen⟩, hbefore, rfl⟩
    have hne' : address' ≠ address := by
      rintro rfl
      cases hfree.symm.trans (h.held k _ _ hholds)
    have hlive' : s'.live address' = s.live address' := by
      rw [hlive, Function.update_of_ne hne']
    refine h.not_released ho hholds hlive' (fun _ hsame => ?_) hr
    exact hne' (Option.some.inj (haddress.symm.trans hsame)).symm
  · exact (hkeep hclean).released fun j rs he => absurd he (hwrite j rs)

/-! ### Steps -/

variable [DecidableEq K] {lengthLine : ℤ → Bytes}

lemma others_set {conn : Serving} {live : ℕ → Option ℕ} :
    s.Others { s.set k conn with live := live } k :=
  ⟨fun _ hj => Function.update_of_ne hj _ _, fun _ _ => rfl⟩

lemma others_init {sockfd : ℕ} : s.Others (s.init k sockfd) k :=
  ⟨fun _ hj => Function.update_of_ne hj _ _, fun _ hj => Function.update_of_ne hj _ _⟩

lemma conn_set {conn : Serving} : (s.set k conn).conn k = conn := Function.update_self _ _ _

omit [DecidableEq K] in
/-- A step that keeps the accounts is a clean one. -/
lemma Accounted.iff_of_accounted (h : s'.Accounted) (hclean : s.Clean e)
    (hmunmap : ∀ k rs, e = .write k rs → ∀ address size,
      Effect.munmap address size ∈ ((s.conn k).write rs).1 → s.live address = some size) :
    (s.Released e s' ↔ s.Clean e) ∧ (s.Clean e → s'.Accounted) :=
  ⟨iff_of_true (h.released hmunmap) hclean, fun _ => h⟩

/-- An object with an address, of which nothing is known, becomes a connection. -/
lemma Accounted.init (h : s.Accounted) (hclosed : ¬ s.IsOpen k) (sockfd : ℕ) :
    (s.Released (.init k sockfd) (s.init k sockfd) ↔ s.Clean (.init k sockfd)) ∧
      (s.Clean (.init k sockfd) → (s.init k sockfd).Accounted) := by
  have hconn : (s.init k sockfd).conn k = (s.conn k).initConn sockfd := conn_set
  have hkeep : (s.conn k).fileAddress = none → (s.init k sockfd).Accounted := by
    intro hnone
    apply h.clear others_init rfl hnone
    rw [hconn]
    exact hnone
  refine ⟨⟨fun hr => ?_, fun hclean => (hkeep hclean).released nofun⟩, hkeep⟩
  by_contra hne
  obtain ⟨address, haddress⟩ := Option.ne_none_iff_exists'.mp hne
  have hopen : (s.init k sockfd).IsOpen k := by
    rw [IsOpen, hconn]
    exact ⟨Function.update_self _ _ _, nofun⟩
  have hholds : ((s.init k sockfd).conn k).fileAddress = some address := by
    rw [hconn]
    exact haddress
  obtain ⟨size, hsize⟩ := Option.ne_none_iff_exists'.mp ((hr.exact address).mpr ⟨k, hopen, hholds⟩)
  obtain ⟨j, hj⟩ := h.owner address size hsize
  have hjk : j ≠ k := by
    rintro rfl
    exact hclosed hj.1
  have hother : s.Others (s.init k sockfd) k := others_init
  have hj' := (hother.holds_iff hjk).mpr hj
  exact hjk (hr.one j k address hj'.1 hopen hj'.2.1 hholds)

/-- A connection is closed, and what it had mapped is lost. -/
lemma Accounted.closeConn (h : s.Accounted) (hinit : s.initialised k = true) :
    (s.Released (.closeConn k) (s.set k (s.conn k).closeConn) ↔ s.Clean (.closeConn k)) ∧
      (s.Clean (.closeConn k) → (s.set k (s.conn k).closeConn).Accounted) := by
  have hclean : s.Clean (.closeConn k) ↔ (s.conn k).fileAddress = none := by
    constructor
    · intro hclean
      by_cases hsock : (s.conn k).mSockfd = none
      · exact h.closed k hinit hsock
      · exact hclean hsock
    · exact fun hnone _ => hnone
  rw [hclean]
  refine h.closed_iff others_set rfl hinit ?_ ?_ nofun
  · rw [conn_set]
    rfl
  · rw [conn_set]
    rfl

lemma Accounted.write {rs : List Writev} {effects : List Effect} {returned : Bool} {conn : Serving}
    (h : s.Accounted) (hinit : s.initialised k = true)
    (hwrite : (s.conn k).write rs = (effects, some returned, conn)) :
    (s.Released (.write k rs) { s.set k conn with live := munmap s.live effects } ↔
        s.Clean (.write k rs)) ∧
      (s.Clean (.write k rs) → Accounted { s.set k conn with live := munmap s.live effects }) := by
  obtain ⟨hsock, hnone | ⟨address, haddress⟩⟩ := Serving.write_cases hwrite
  · have hlive : munmap s.live effects = s.live := by
      rcases hnone.effects with heffects | ⟨ev, heffects⟩
      · rw [heffects]
        rfl
      · rw [heffects]
        rfl
    have hkeeps : (s.conn k).Keeps ((s.set k conn).conn k) := by
      rw [conn_set]
      exact ⟨hnone.fileAddress, hnone.fileStat, hsock⟩
    refine (h.keeps others_set hlive rfl hkeeps).iff_of_accounted trivial ?_
    rintro _ _ heq address size hmem
    cases heq
    rw [hwrite] at hmem
    rcases hnone.effects with heffects | ⟨ev, heffects⟩
    · rw [heffects] at hmem
      cases hmem
    · rw [heffects, List.mem_singleton] at hmem
      cases hmem
  · have hopen : (s.conn k).mSockfd ≠ none := by
      intro hclosed
      cases haddress.before.symm.trans (h.closed k hinit hclosed)
    have hholds : s.Holds k address (s.conn k).fileStat.size :=
      ⟨⟨hinit, hopen⟩, haddress.before, rfl⟩
    have hlive : munmap s.live effects = Function.update s.live address none := by
      rw [haddress.effects]
      rfl
    have hafter : ((s.set k conn).conn k).fileAddress = none := by
      rw [conn_set]
      exact haddress.after
    refine (h.unmap others_set hlive hholds hafter).iff_of_accounted trivial ?_
    rintro _ _ heq address' size hmem
    cases heq
    rw [hwrite, haddress.effects, List.mem_singleton] at hmem
    cases hmem
    exact h.held k _ _ hholds

omit [DecidableEq K] in
/-- What a clean `process` needs, of the request that it reads. -/
lemma clean_process_iff {fs : FileSystem} {l : Serving.Lookup} (hready : (s.conn k).Ready)
    (hread : (s.conn k).readRequest fs = some l) :
    s.Clean (.process k fs) ↔ (l.code ≠ .noRequest →
      (s.conn k).fileAddress = none ∧ (l.mapped ≠ none → (s.conn k).mSockfd ≠ none)) := by
  obtain ⟨hanswers, hmapped⟩ := hready.readRequest_iff hread
  rw [Clean, hanswers]
  refine forall_congr' fun hans => ?_
  rw [hmapped hans]

/-- `process` maps no file: it waits for more of the request, or closes the connection. -/
lemma Accounted.processNone {fs : FileSystem} {l : Serving.Lookup} (h : s.Accounted)
    (hinit : s.initialised k = true) (hready : (s.conn k).Ready)
    (hread : (s.conn k).readRequest fs = some l)
    (hnone : (s.conn k).MapsNone l) :
    (s.Released (.process k fs) (s.set k (Serving.answer lengthLine l).conn) ↔
        s.Clean (.process k fs)) ∧
      (s.Clean (.process k fs) → (s.set k (Serving.answer lengthLine l).conn).Accounted) := by
  by_cases hcode : l.code = .noRequest
  · have hkeeps : (s.conn k).Keeps ((s.set k (Serving.answer lengthLine l).conn).conn k) := by
      rw [conn_set, Serving.answer, if_pos hcode]
      exact hnone.noRequest hcode
    have hclean : s.Clean (.process k fs) :=
      (clean_process_iff hready hread).mpr fun hne => absurd hcode hne
    exact (h.keeps others_set rfl rfl hkeeps).iff_of_accounted hclean (by simp)
  · obtain ⟨haddress, hsock⟩ := hnone.answer lengthLine hcode
    have hclean : s.Clean (.process k fs) ↔ (s.conn k).fileAddress = none := by
      rw [clean_process_iff hready hread]
      constructor
      · exact fun hclean => (hclean hcode).1
      · exact fun hbefore _ => ⟨hbefore, fun hmapped => absurd hnone.mapped hmapped⟩
    rw [hclean]
    refine h.closed_iff others_set rfl hinit ?_ ?_ (by simp)
    · rw [conn_set, haddress]
    · rw [conn_set, hsock]

/-- `process` maps a file, for a connection that should be open and have none. -/
lemma Accounted.processMaps {fs : FileSystem} {l : Serving.Lookup} (h : s.Accounted)
    (hinit : s.initialised k = true) (hready : (s.conn k).Ready)
    (hread : (s.conn k).readRequest fs = some l)
    (hmaps : (s.conn k).Maps l address size) (hsize : size ≠ 0) (hfree : s.live address = none)
    (hs' : s' = { s.set k (Serving.answer lengthLine l).conn with
      live := Function.update s.live address (some size) }) :
    (s.Released (.process k fs) s' ↔ s.Clean (.process k fs)) ∧
      (s.Clean (.process k fs) → s'.Accounted) := by
  obtain ⟨haddress, hstat, hsock⟩ := hmaps.answer lengthLine hsize
  have hcode : l.code ≠ .noRequest := by
    rw [hmaps.code]
    exact nofun
  have hmapped : l.mapped ≠ none := by
    rw [hmaps.mapped]
    exact nofun
  have hclean : s.Clean (.process k fs) ↔
      (s.conn k).fileAddress = none ∧ (s.conn k).mSockfd ≠ none := by
    rw [clean_process_iff hready hread]
    constructor
    · exact fun hclean => ⟨(hclean hcode).1, (hclean hcode).2 hmapped⟩
    · exact fun hclean _ => ⟨hclean.1, fun _ => hclean.2⟩
  have hconn : s'.conn k = (Serving.answer lengthLine l).conn := by
    rw [hs']
    exact conn_set
  rw [hclean]
  refine h.mapped_iff (hs' ▸ others_set) (congrArg live hs') hfree ?_ hinit ?_ ?_ ?_ nofun
  · rw [hs']
    rfl
  · rw [hconn, hsock]
  · rw [hconn, haddress]
  · rw [hconn, hstat]

lemma Accounted.process {fs : FileSystem} {p : Serving.Processed} (h : s.Accounted)
    (hinit : s.initialised k = true) (hready : (s.conn k).Ready)
    (hprocess : (s.conn k).process lengthLine fs = some p)
    (hmmap : ∀ address size, p.lookup.mapped = some (address, size) →
      size ≠ 0 ∧ s.live address = none) :
    (s.Released (.process k fs) { s.set k p.conn with live := mmap s.live p.lookup.mapped } ↔
        s.Clean (.process k fs)) ∧
      (s.Clean (.process k fs) →
        Accounted { s.set k p.conn with live := mmap s.live p.lookup.mapped }) := by
  obtain ⟨l, hread, rfl⟩ := Option.map_eq_some_iff.mp hprocess
  have hlookup : (Serving.answer lengthLine l).lookup = l := by
    rw [Serving.answer]
    split
    · rfl
    · rfl
  rw [hlookup] at hmmap ⊢
  rcases Serving.readRequest_cases hread with hnone | ⟨address, size, hmaps⟩
  · rw [hnone.mapped]
    exact h.processNone hinit hready hread hnone
  · obtain ⟨hsize, hfree⟩ := hmmap address size hmaps.mapped
    rw [hmaps.mapped]
    exact h.processMaps hinit hready hread hmaps hsize hfree rfl

/-- Exactly the clean calls keep the accounts. -/
lemma Step.released (h : s.Accounted) (hready : ∀ k, s.initialised k = true → (s.conn k).Ready)
    (hs : Step lengthLine s e s') : (s.Released e s' ↔ s.Clean e) ∧ (s.Clean e → s'.Accounted) := by
  cases hs with
  | init hclosed => exact h.init hclosed _
  | receive hinit =>
    refine (h.keeps others_set rfl rfl ?_).iff_of_accounted trivial nofun
    rw [conn_set]
    exact ⟨rfl, rfl, rfl⟩
  | process hinit hprocess hmmap => exact h.process hinit (hready _ hinit) hprocess hmmap
  | write hinit hwrite => exact h.write hinit hwrite
  | closeConn hinit => exact h.closeConn hinit

/-- What every call keeps of the object that it is called on. -/
lemma ready_set {conn : Serving} {live : ℕ → Option ℕ}
    (hready : ∀ k, s.initialised k = true → (s.conn k).Ready) (hconn : conn.Ready) (j : K)
    (hinit : ({ s.set k conn with live := live } : Mappings K).initialised j = true) :
    (({ s.set k conn with live := live } : Mappings K).conn j).Ready := by
  by_cases hj : j = k
  · subst hj
    rw [conn_set]
    exact hconn
  · have hother : (({ s.set k conn with live := live } : Mappings K).conn j) = s.conn j :=
      Function.update_of_ne hj _ _
    rw [hother]
    exact hready j hinit

/-- The objects that were initialised stay ready to be called. -/
lemma Step.ready (hready : ∀ k, s.initialised k = true → (s.conn k).Ready)
    (hs : Step lengthLine s e s') : ∀ k, s'.initialised k = true → (s'.conn k).Ready := by
  cases hs with
  | @init k sockfd _ =>
    intro j hinit
    by_cases hj : j = k
    · subst hj
      rw [Mappings.init, conn_set]
      exact Serving.ready_initConn _ sockfd
    · have hother : s.Others (s.init k sockfd) k := others_init
      rw [hother.conn j hj]
      exact hready j ((hother.initialised j hj).symm.trans hinit)
  | receive hinit => exact ready_set hready ((hready _ hinit).receive _)
  | process hinit hprocess _ => exact ready_set hready ((hready _ hinit).process hprocess)
  | @write k rs _ _ _ hinit hwrite =>
    have hconn := (hready _ hinit).write rs
    rw [hwrite] at hconn
    exact ready_set hready hconn
  | closeConn hinit => exact ready_set hready ((hready _ hinit).congr rfl rfl)

/-! ### Runs -/

omit [DecidableEq K] in
lemma accounted_start (conn : K → Serving) : (start conn).Accounted where
  held _ _ _ hk := nomatch hk.1.1
  owner _ _ hlive := nomatch hlive
  one _ _ _ _ _ hk := nomatch hk.1.1
  closed _ hinit := nomatch hinit

/-- In a run no mapping is lost, and nothing else is unmapped, if and only if every call is clean. -/
theorem run_released_iff {conn : K → Serving} {es : List (Event K)} :
    Trace (fun s e s' => Step lengthLine s e s' ∧ s.Released e s') (start conn) es s ↔
      Trace (fun s e s' => Step lengthLine s e s' ∧ s.Clean e) (start conn) es s :=
  Trace.guard_iff
    (I := fun s : Mappings K => s.Accounted ∧ ∀ k, s.initialised k = true → (s.conn k).Ready)
    (fun _ _ _ ⟨h, hready⟩ hs =>
      have hiff := hs.released h hready
      ⟨hiff.1, fun hclean => ⟨hiff.2 hclean, hs.ready hready⟩⟩)
    ⟨accounted_start conn, nofun⟩

/-- `"GET /static/a HTTP/1.1"`, of which `"/a"` is looked up. -/
def getStatic : Bytes :=
  ascii ['G', 'E', 'T', ' ', '/', 's', 't', 'a', 't', 'i', 'c', '/', 'a', ' ', 'H', 'T', 'T', 'P', '/',
    '1', '.', '1']

/-- Every path is a file of three bytes that all may read. -/
def threeBytes : FileSystem := ⟨fun _ => some ⟨0o100644, 3⟩, fun _ _ => 4096⟩

/-- An object with a null pointer. -/
def unused : Serving where
  toAnswering := { Answering.found with fileAddress := none }
  mSockfd := none
  stMode := 0

/-- The client hangs up when the file is mapped for it, and the connection is closed. -/
theorem run_notReleased : ∃ s s' : Mappings Unit,
    Trace (Step Answering.lengthLine) (start fun _ => unused)
      [.init () 7, .receive () getStatic, .process () threeBytes, .process () threeBytes] s ∧
    Step Answering.lengthLine s (.closeConn ()) s' ∧ s'.live 4096 = some 3 ∧
    ¬ s.Released (.closeConn ()) s' := by
  have hclosed : ¬ (start fun _ : Unit => unused).IsOpen () := fun hopen => nomatch hopen.1
  have hmapped : ∀ address size, some (4096, 3) = some (address, size) →
      size ≠ 0 ∧ (none : Option ℕ) = none := by
    rintro _ _ ⟨⟩
    exact ⟨by decide, rfl⟩
  have hrun : Trace (Step Answering.lengthLine) (start fun _ => unused)
      [.init () 7, .receive () getStatic, .process () threeBytes, .process () threeBytes]
      (_ : Mappings Unit) :=
    .cons (.init hclosed) (.cons (.receive rfl) (.cons (.process rfl rfl nofun)
      (.cons (.process rfl rfl hmapped) (.nil _))))
  refine ⟨_, _, hrun, .closeConn rfl, rfl, ?_⟩
  intro hr
  obtain ⟨⟨⟩, hopen, -⟩ := (hr.exact 4096).mp nofun
  exact hopen.2 rfl

end Mappings

end LinuxServer.HttpConn
