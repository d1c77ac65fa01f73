import LinuxServer.Core.Paths
import LinuxServer.HttpConn.Interference
import LinuxServer.HttpConn.Mappings
import LinuxServer.HttpConn.RealFile

/-!
# The path that a request is looked up under

Of a URL that there is no room for in `m_real_file` it is the front that is looked up; and the
components of the URL are taken as they are, so that `..` leads out of `doc_root`.
-/

namespace LinuxServer.HttpConn

open Core
open ParseHttp (slash)

namespace Serving

variable {s s' : Serving} {fs : FileSystem} {l : Lookup} {p : ℕ}

/-! ### The calls behind `init` -/

/-- The calls behind `init`. -/
def Calls (lengthLine : ℤ → Bytes) (s : Serving) (i : Input) (s' : Serving) : Prop :=
  ∃ o, turn lengthLine i s = some (o, s')

/-- A call behind `init`. -/
lemma Ready.calls (h : s.Ready) {lengthLine : ℤ → Bytes} {i : Input} (hs : Calls lengthLine s i s') :
    s'.Ready := by
  obtain ⟨o, hturn⟩ := hs
  cases i with
  | receive chunk =>
    cases hturn
    exact h.receive chunk
  | process fs =>
    obtain ⟨p, hprocess, hp⟩ := Option.map_eq_some_iff.mp hturn
    cases hp
    exact h.process hprocess
  | write rs =>
    rw [turn] at hturn
    split at hturn
    next heq =>
      cases hturn
      have hwrite := h.write rs
      rw [heq] at hwrite
      exact hwrite
    next => cases hturn

/-- In every run from `init` on. -/
lemma run_ready {lengthLine : ℤ → Bytes} {fd : ℕ} {ins : List Input}
    (hrun : Trace (Calls lengthLine) (s.initConn fd) ins s') : s'.Ready :=
  hrun.invariant (fun _ _ _ h hs => h.calls hs) (ready_initConn s fd)

/-! ### The whole URL -/

/-- The path ends inside of `m_real_file`, and what is served is found under the whole URL. -/
structure Whole (url : Bytes) (l : Lookup) : Prop where
  file : PathEnds l.conn.realFile
  path : l.path = some (docRoot ++ url) ∨ l.code ≠ .fileRequest

variable {lengthLine : ℤ → Bytes} {fd : ℕ} {ins : List Input} {call : Call} {url : Bytes}

lemma whole_openFile_iff (hfile : PathEnds s.realFile) :
    Whole url (s.openFile fs (docRoot ++ url.take urlRoom)) ↔
      url.length ≤ urlRoom ∨ ¬ fs.Serves (docRoot ++ url.take urlRoom) := by
  obtain ⟨hpath, -, hreal⟩ := s.openFile_conn fs (docRoot ++ url.take urlRoom)
  constructor
  · intro hmeets
    by_contra hnot
    obtain ⟨hlong, hserves⟩ := not_or.mp hnot
    rcases hmeets.path with hsame | hcode
    · have hurl : url.take urlRoom = url :=
        List.append_cancel_left (Option.some.inj (hpath.symm.trans hsame))
      exact hlong ((List.take_eq_self_iff _).mp hurl)
    · exact hcode (openFile_code.mpr (not_not.mp hserves))
  · intro h
    refine ⟨by rw [hreal]; exact hfile, ?_⟩
    rcases h with hshort | hno
    · left
      rw [hpath, List.take_of_length_le hshort]
    · right
      exact fun hcode => hno (openFile_code.mp hcode)

lemma readRequest_doRequest (hcall : s.processRead = some call)
    (hreturned : call.returned = some .doRequest) :
    s.readRequest fs = doRequest { s with toHttpConn := call.conn } fs := by
  rw [Serving.readRequest, hcall, Option.bind_eq_bind, Option.bind_some]
  dsimp only
  rw [hreturned]
  rfl

lemma Ready.whole_iff (h : s.Ready) (fs : FileSystem) (hcall : s.processRead = some call)
    (hreturned : call.returned = some .doRequest) (hurl : call.conn.url = some p)
    (htext : textAt call.conn.readBuf p = some url) :
    ∃ l, s.readRequest fs = some l ∧
      (Whole url l ↔ url.length ≤ urlRoom ∨ ¬ fs.Serves (docRoot ++ url.take urlRoom)) := by
  obtain ⟨heq, hfile⟩ := doRequest_eq (s := { s with toHttpConn := call.conn }) fs h.file hurl
    (strncpyAt_textAt htext)
  have hwhole : urlText call.conn = url := by
    rw [urlText, hurl]
    exact cut_drop_textAt htext
  rw [hwhole] at heq
  exact ⟨_, (readRequest_doRequest hcall hreturned).trans heq, whole_openFile_iff hfile⟩

/-- In every run, when `do_request` is called, what is served is found under the whole URL if and only if
there is room for the URL, or there is no file to be served under the front of it. -/
theorem run_whole_iff (fs : FileSystem) (hrun : Trace (Calls lengthLine) (s.initConn fd) ins s')
    (hcall : s'.processRead = some call) (hreturned : call.returned = some .doRequest)
    (hurl : call.conn.url = some p) (htext : textAt call.conn.readBuf p = some url) :
    ∃ l, s'.readRequest fs = some l ∧
      (Whole url l ↔ url.length ≤ urlRoom ∨ ¬ fs.Serves (docRoot ++ url.take urlRoom)) :=
  (run_ready hrun).whole_iff fs hcall hreturned hurl htext

/-- `"/a"` is looked up. -/
theorem run_whole_getStatic : ∃ (s : Serving) (call : Call) (l : Lookup),
    Trace (Calls Answering.lengthLine) (Mappings.unused.initConn 7)
      [.receive Mappings.getStatic, .process Mappings.threeBytes] s ∧
    s.processRead = some call ∧ call.returned = some .doRequest ∧
    s.readRequest Mappings.threeBytes = some l ∧ Whole (ascii "/a".toList) l := by
  have hrun : Trace (Calls Answering.lengthLine) (Mappings.unused.initConn 7)
      [.receive Mappings.getStatic, .process Mappings.threeBytes] (_ : Serving) :=
    .cons ⟨_, rfl⟩ (.cons ⟨_, rfl⟩ (.nil _))
  obtain ⟨l, hread, hiff⟩ := run_whole_iff Mappings.threeBytes hrun rfl rfl rfl
    (show textAt _ _ = some (ascii "/a".toList) from rfl)
  exact ⟨_, _, l, hrun, rfl, rfl, hread, hiff.mpr (.inl (by decide))⟩

/-- 190 bytes. -/
def longName : Bytes := List.replicate 190 97

/-- `"GET /static/aa.. HTTP/1.1"`, with a name that there is no room for. -/
def getLong : Bytes := ascii "GET /static/".toList ++ longName ++ ascii " HTTP/1.1".toList

set_option maxRecDepth 2000 in
/-- A file with a shorter name is served. -/
theorem run_notWhole : ∃ (s : Serving) (call : Call) (p : ℕ) (l : Lookup),
    Trace (Calls Answering.lengthLine) (Mappings.unused.initConn 7)
      [.receive getLong, .process Mappings.threeBytes] s ∧
    s.processRead = some call ∧ call.returned = some .doRequest ∧ call.conn.url = some p ∧
    textAt call.conn.readBuf p = some (slash :: longName) ∧
    s.readRequest Mappings.threeBytes = some l ∧ ¬ Whole (slash :: longName) l := by
  have hrun : Trace (Calls Answering.lengthLine) (Mappings.unused.initConn 7)
      [.receive getLong, .process Mappings.threeBytes] (_ : Serving) :=
    .cons ⟨_, rfl⟩ (.cons ⟨_, rfl⟩ (.nil _))
  obtain ⟨l, hread, hiff⟩ := (run_ready hrun).whole_iff Mappings.threeBytes rfl rfl rfl
    (show textAt _ _ = some (slash :: longName) from rfl)
  refine ⟨_, _, _, l, hrun, rfl, rfl, rfl, rfl, hread, fun hmeets => ?_⟩
  rcases hiff.mp hmeets with hshort | hno
  · exact absurd hshort (by decide)
  · exact hno ⟨_, rfl, by decide, by decide⟩

end Serving

/-! ### Below `doc_root` -/

/-- `"."` -/
def dot : Bytes := ascii ['.']

/-- `".."` -/
def dotdot : Bytes := ascii ['.', '.']

/-- What a component of a path does. -/
def move (component : Bytes) : Move Bytes :=
  if component = [] ∨ component = dot then .stay
  else if component = dotdot then .up
  else .down component

/-- What the components of a path do. -/
def moves (path : Bytes) : List (Move Bytes) := (path.splitOn slash).map move

/-- The file that a path leads to from the root. -/
def resolve (path : Bytes) : List Bytes := destination [] (moves path)

/-- The file is in `doc_root`, or in a directory below it. -/
def Confined (path : Bytes) : Prop := resolve docRoot <+: resolve path

lemma moves_append (path u : Bytes) : moves (path ++ slash :: u) = moves path ++ moves u := by
  rw [moves, List.splitOn_append_cons_self, List.map_append]
  rfl

/-- A path in front of which `doc_root` stands begins there. -/
lemma confined_iff {u : Bytes} (h : u.head? = some slash) :
    Confined (docRoot ++ u) ↔ (Way.ofMoves (moves u)).Returns (resolve docRoot) := by
  obtain ⟨v, rfl⟩ := List.head?_eq_some_iff.mp h
  have hresolve : resolve (docRoot ++ slash :: v) = destination (resolve docRoot) (moves (slash :: v)) := by
    rw [resolve, moves_append, show slash :: v = [] ++ slash :: v from rfl, moves_append, destination,
      List.foldl_append]
    rfl
  rw [Confined, hresolve, Way.isPrefix_destination_iff]

namespace Serving

variable {s s' : Serving} {fs : FileSystem} {l : Lookup} {lengthLine : ℤ → Bytes} {fd : ℕ}
  {ins : List Input} {call : Call}

lemma Ready.confined_iff (h : s.Ready) (hcall : s.processRead = some call)
    (hreturned : call.returned = some .doRequest) (hread : s.readRequest fs = some l) :
    (l.code = .fileRequest → ∃ path, l.path = some path ∧ Confined path) ↔
      ¬ fs.Serves (docRoot ++ call.conn.urlText.take urlRoom) ∨
        (Way.ofMoves (moves (call.conn.urlText.take urlRoom))).Returns (resolve docRoot) := by
  rw [readRequest_doRequest hcall hreturned] at hread
  obtain ⟨name, -, rfl⟩ := doRequest_spec (s := { s with toHttpConn := call.conn }) h.file hread
  have hstate := processRead_header h.sound.noContent.checkState hcall hreturned
  have hhead : (call.conn.urlText.take urlRoom).head? = some slash := by
    rw [List.head?_take, if_neg (by decide)]
    exact (h.sound.processRead hcall).urlText_head hstate
  rw [openFile_code, (openFile_conn _ _ _).1, ← imp_iff_not_or, ← HttpConn.confined_iff hhead]
  refine imp_congr_right fun _ => ?_
  constructor
  · rintro ⟨_, ⟨rfl⟩, hconfined⟩
    exact hconfined
  · exact fun hconfined => ⟨_, rfl, hconfined⟩

/-- In every run, when `do_request` is called, the file that it serves is below `doc_root` if and only if
there is none, or the URL does not leave `doc_root` but to come back to it. -/
theorem run_confined_iff (hrun : Trace (Calls lengthLine) (s.initConn fd) ins s')
    (hcall : s'.processRead = some call) (hreturned : call.returned = some .doRequest)
    (hread : s'.readRequest fs = some l) :
    (l.code = .fileRequest → ∃ path, l.path = some path ∧ Confined path) ↔
      ¬ fs.Serves (docRoot ++ call.conn.urlText.take urlRoom) ∨
        (Way.ofMoves (moves (call.conn.urlText.take urlRoom))).Returns (resolve docRoot) :=
  (run_ready hrun).confined_iff hcall hreturned hread

/-- `"/a"` is in `doc_root`. -/
theorem run_confined_getStatic : ∃ (s : Serving) (call : Call) (l : Lookup),
    Trace (Calls Answering.lengthLine) (Mappings.unused.initConn 7)
      [.receive Mappings.getStatic, .process Mappings.threeBytes] s ∧
    s.processRead = some call ∧ call.returned = some .doRequest ∧
    s.readRequest Mappings.threeBytes = some l ∧
    (l.code = .fileRequest → ∃ path, l.path = some path ∧ Confined path) := by
  have hrun : Trace (Calls Answering.lengthLine) (Mappings.unused.initConn 7)
      [.receive Mappings.getStatic, .process Mappings.threeBytes] (_ : Serving) :=
    .cons ⟨_, rfl⟩ (.cons ⟨_, rfl⟩ (.nil _))
  exact ⟨_, _, _, hrun, rfl, rfl, rfl, (run_confined_iff hrun rfl rfl rfl).mpr (.inr List.nil_prefix)⟩

/-- `"GET /static/../../../etc/passwd HTTP/1.1"` -/
def getPasswd : Bytes := ascii "GET /static/../../../etc/passwd HTTP/1.1".toList

/-- `"/etc/passwd"` is served. -/
theorem run_notConfined : ∃ (s : Serving) (call : Call) (l : Lookup) (path : Bytes),
    Trace (Calls Answering.lengthLine) (Mappings.unused.initConn 7)
      [.receive getPasswd, .process Mappings.threeBytes] s ∧
    s.processRead = some call ∧ call.returned = some .doRequest ∧
    s.readRequest Mappings.threeBytes = some l ∧ l.code = .fileRequest ∧ l.path = some path ∧
    resolve path = [ascii "etc".toList, ascii "passwd".toList] ∧ ¬ Confined path := by
  have hrun : Trace (Calls Answering.lengthLine) (Mappings.unused.initConn 7)
      [.receive getPasswd, .process Mappings.threeBytes] (_ : Serving) :=
    .cons ⟨_, rfl⟩ (.cons ⟨_, rfl⟩ (.nil _))
  have hpath : resolve (docRoot ++ ascii "/../../../etc/passwd".toList) =
      [ascii "etc".toList, ascii "passwd".toList] := by decide
  refine ⟨_, _, _, docRoot ++ ascii "/../../../etc/passwd".toList, hrun, rfl, rfl, rfl, rfl, rfl, hpath,
    fun hconfined => ?_⟩
  rw [Confined, hpath] at hconfined
  exact absurd hconfined.length_le (by decide)

end Serving

end LinuxServer.HttpConn
