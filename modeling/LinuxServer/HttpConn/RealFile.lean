import LinuxServer.HttpConn.Serving
import LinuxServer.HttpConn.Url
import LinuxServer.HttpConn.Writing

/-!
# The file that is looked up

`do_request` copies `doc_root` and the text at `m_url` into `m_real_file`. `strncpy` stops where there
is room for one NUL more, so that of a longer URL it is the front that is looked up. Behind `init` the
NUL is there, whatever was called since.
-/

namespace LinuxServer.HttpConn

open Core
open ParseHttp (slash)

/-- The bytes of a URL that there is room for. -/
def urlRoom : ℕ := filenameLen - docRoot.length - 1

/-- A NUL stands at the end of `m_real_file`. -/
structure PathEnds (realFile : Bytes) : Prop where
  length : realFile.length = filenameLen
  last : realFile[filenameLen - 1]? = some 0

/-- There is a file that all may read. -/
def FileSystem.Serves (fs : FileSystem) (path : Bytes) : Prop :=
  ∃ st, fs.stat path = some st ∧ st.mode &&& sIRoth ≠ 0 ∧ st.mode &&& sIFmt ≠ sIFDir

namespace Serving

open Answering (Writev)

variable {s s' : Serving} {fs : FileSystem} {l : Lookup} {name path : Bytes} {p : ℕ}

/-- The path stands between the beginning of `m_real_file` and its last byte. -/
lemma realFile_setRealFile (hfile : PathEnds s.realFile) (hname : name.length = urlRoom) :
    (s.setRealFile name).realFile = docRoot ++ name ++ [0] := by
  have hroot : docRoot.length = 13 := by decide
  have hroom : urlRoom = 186 := by decide
  have hlength : s.realFile.length = 200 := hfile.length
  have hlast : s.realFile.drop 199 = [0] := by
    obtain ⟨hlt, hget⟩ := List.getElem?_eq_some_iff.mp (show s.realFile[199]? = some 0 from hfile.last)
    rw [List.drop_eq_getElem_cons hlt, hget, List.drop_of_length_le hlength.le]
  have hstrcpy : putAt s.realFile 0 (docRoot ++ [0]) = docRoot ++ ([0] ++ s.realFile.drop 14) := by
    simp only [putAt, List.take_zero, List.nil_append, List.append_assoc, List.length_append, hroot,
      List.length_singleton, Nat.zero_add]
  have hrest : (docRoot ++ ([0] ++ s.realFile.drop 14)).drop (docRoot.length + name.length) = [0] := by
    calc (docRoot ++ ([0] ++ s.realFile.drop 14)).drop (docRoot.length + name.length)
        = ([0] ++ s.realFile.drop 14).drop 186 := by
          rw [← List.drop_drop, List.drop_left, hname, hroom]
      _ = s.realFile.drop 199 := List.drop_drop (i := 185) (j := 14)
      _ = [0] := hlast
  rw [setRealFile]
  dsimp only
  rw [hstrcpy, putAt, hrest, List.take_left]

/-- What `do_request` looks up. -/
lemma doRequest_eq (fs : FileSystem) (hfile : PathEnds s.realFile) (hurl : s.url = some p)
    (hname : strncpyAt urlRoom s.readBuf p = some name) :
    s.doRequest fs = some ((s.setRealFile name).openFile fs (docRoot ++ s.urlText.take urlRoom)) ∧
      PathEnds (s.setRealFile name).realFile := by
  obtain ⟨hlength, hcut⟩ := copyN_eq_some hname
  have hreal := realFile_setRealFile hfile hlength
  have hzero : (0 : UInt8) ∉ docRoot := by decide
  have htext : s.urlText = cut (s.readBuf.drop p) := by rw [urlText, hurl]
  have hpath : textAt (s.setRealFile name).realFile 0 = some (docRoot ++ s.urlText.take urlRoom) := by
    rw [hreal, textAt_zero, cut_append hzero, hcut, htext]
  have hfront : (docRoot ++ name).length = filenameLen - 1 := by
    rw [List.length_append, hlength]
    decide
  refine ⟨?_, ?_, ?_⟩
  · rw [doRequest, hurl, Option.bind_eq_bind, Option.bind_some, Option.bind_eq_bind,
      show filenameLen - docRoot.length - 1 = urlRoom from rfl, hname, Option.bind_some]
    dsimp only
    rw [hpath]
    rfl
  · rw [hreal, List.length_append, hfront]
    decide
  · rw [hreal, ← hfront, List.getElem?_append_right le_rfl, Nat.sub_self]
    rfl

lemma doRequest_spec (hfile : PathEnds s.realFile) (h : s.doRequest fs = some l) :
    ∃ name, PathEnds (s.setRealFile name).realFile ∧
      l = (s.setRealFile name).openFile fs (docRoot ++ s.urlText.take urlRoom) := by
  obtain ⟨url, hurl, hrest⟩ := Option.bind_eq_some_iff.mp h
  obtain ⟨name, hname, -⟩ := Option.bind_eq_some_iff.mp hrest
  obtain ⟨heq, hends⟩ := doRequest_eq fs hfile hurl hname
  exact ⟨name, hends, Option.some.inj (h.symm.trans heq)⟩

lemma openFile_code : (s.openFile fs path).code = .fileRequest ↔ fs.Serves path := by
  rw [openFile, FileSystem.Serves]
  cases fs.stat path with
  | none =>
    constructor
    · intro hcode
      cases hcode
    · rintro ⟨st, hst, -⟩
      cases hst
  | some st =>
    dsimp only
    split
    next hread =>
      constructor
      · intro hcode
        cases hcode
      · rintro ⟨_, ⟨rfl⟩, hmode, -⟩
        exact absurd hread hmode
    next hread =>
      split
      next hdir =>
        constructor
        · intro hcode
          cases hcode
        · rintro ⟨_, ⟨rfl⟩, -, hmode⟩
          exact absurd hdir hmode
      next hdir => exact iff_of_true rfl ⟨st, rfl, hread, hdir⟩

/-- What `open` and `mmap` do is not seen in the members that were used. -/
lemma openFile_conn (s : Serving) (fs : FileSystem) (path : Bytes) :
    (s.openFile fs path).path = some path ∧
    (s.openFile fs path).conn.toHttpConn = s.toHttpConn ∧
    (s.openFile fs path).conn.realFile = s.realFile := by
  rw [openFile]
  cases fs.stat path with
  | none => exact ⟨rfl, rfl, rfl⟩
  | some st =>
    dsimp only
    split
    · exact ⟨rfl, rfl, rfl⟩
    · split
      · exact ⟨rfl, rfl, rfl⟩
      · exact ⟨rfl, rfl, rfl⟩

/-! ### What every call keeps -/

/-- What every call behind `init` keeps. -/
structure Ready (s : Serving) : Prop where
  sound : s.toHttpConn.Sound
  file : PathEnds s.realFile

lemma ready_initConn (s : Serving) (fd : ℕ) : (s.initConn fd).Ready :=
  ⟨sound_init, List.length_replicate, List.getElem?_replicate_of_lt (by decide)⟩

lemma Ready.congr (h : s.Ready) (hconn : s'.toHttpConn = s.toHttpConn)
    (hreal : s'.realFile = s.realFile) : s'.Ready := by
  refine ⟨?_, ?_⟩
  · rw [hconn]
    exact h.sound
  · rw [hreal]
    exact h.file

lemma Ready.readRequest (h : s.Ready) (hread : s.readRequest fs = some l) : l.conn.Ready := by
  obtain ⟨call, hcall, hread⟩ := Option.bind_eq_some_iff.mp hread
  obtain ⟨returned, -, hread⟩ := Option.bind_eq_some_iff.mp hread
  have hsound := h.sound.processRead hcall
  cases returned with
  | code code =>
    cases hread
    exact ⟨hsound, h.file⟩
  | doRequest =>
    obtain ⟨name, hfile, rfl⟩ := doRequest_spec (s := { s with toHttpConn := call.conn }) h.file hread
    have hready : (setRealFile { s with toHttpConn := call.conn } name).Ready := ⟨hsound, hfile⟩
    exact hready.congr (openFile_conn _ _ _).2.1 (openFile_conn _ _ _).2.2

lemma writeLoop_eq (rs : List Writev) : ∀ a : Answering,
    ∃ address, (writeLoop a rs).2.2 = { a with fileAddress := address } := by
  induction rs with
  | nil => exact fun a => ⟨a.fileAddress, rfl⟩
  | cons r rs ih =>
    intro a
    cases r with
    | sent n => exact ih a
    | eagain => exact ⟨a.fileAddress, rfl⟩
    | error => exact Answering.unmap_eq a

lemma Ready.write (h : s.Ready) (rs : List Writev) : (s.write rs).2.2.Ready := by
  rw [Serving.write, Answering.writeBegin]
  split
  next heq =>
    split at heq
    · cases heq
      exact (s.ready_initConn 0).congr rfl rfl
    · cases heq
  next heq =>
    split at heq
    · cases heq
    · cases heq
      obtain ⟨address, heq⟩ := writeLoop_eq rs s.toAnswering
      dsimp only
      rw [heq]
      exact h.congr rfl rfl

/-- `process_write` is not seen in the members that were used. -/
lemma answer_same (lengthLine : ℤ → Bytes) (l : Lookup) :
    (answer lengthLine l).conn.toHttpConn = l.conn.toHttpConn ∧
      (answer lengthLine l).conn.realFile = l.conn.realFile := by
  obtain ⟨_, _, _, _, heq⟩ := Answering.processWrite_eq l.conn.toAnswering lengthLine l.code
  by_cases hcode : l.code = .noRequest
  · rw [answer, if_pos hcode]
    exact ⟨rfl, rfl⟩
  · rw [answer, if_neg hcode]
    dsimp only
    rw [heq]
    split
    · exact ⟨rfl, rfl⟩
    · exact ⟨rfl, rfl⟩

lemma Ready.receive (h : s.Ready) (chunk : Bytes) : (s.receive chunk).Ready := by
  refine ⟨h.sound.append ?_, h.file⟩
  have hle := h.sound.le
  rw [List.length_take]
  omega

lemma Ready.process (h : s.Ready) {lengthLine : ℤ → Bytes} {p : Processed}
    (hprocess : s.process lengthLine fs = some p) : p.conn.Ready := by
  obtain ⟨l, hread, rfl⟩ := Option.map_eq_some_iff.mp hprocess
  obtain ⟨hconn, hreal⟩ := answer_same lengthLine l
  exact (h.readRequest hread).congr hconn hreal

end Serving

end LinuxServer.HttpConn
