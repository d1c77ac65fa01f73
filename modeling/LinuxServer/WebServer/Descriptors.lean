import LinuxServer.WebServer.Counting

/-!
# The descriptors of the web server

`users` is indexed by descriptors, and the test before `init` counts users. Below the descriptors of the
connections are those of the standard streams, of `listen_fd` and of `epoll_fd`, and between them
those of the files that the workers have open in `do_request`. Whoever opens a descriptor gets the
lowest one that is free.
-/

namespace LinuxServer.WebServer

open Core

/-- The lowest number that is free is below a bound when fewer numbers below the bound are taken. -/
lemma isLeast_lt_iff {taken : Finset ℕ} {fd n : ℕ} (h : IsLeast {d | d ∉ taken} fd) :
    fd < n ↔ (taken.filter (· < n)).card < n := by
  constructor
  · intro hlt
    have hsub : taken.filter (· < n) ⊂ Finset.range n := by
      refine (Finset.ssubset_iff_of_subset fun d hd => ?_).mpr ⟨fd, Finset.mem_range.mpr hlt, fun hfd => ?_⟩
      · exact Finset.mem_range.mpr (Finset.mem_filter.mp hd).2
      · exact h.1 (Finset.mem_filter.mp hfd).1
    have hcard := Finset.card_lt_card hsub
    rwa [Finset.card_range] at hcard
  · intro hcard
    by_contra hle
    have hsub : Finset.range n ⊆ taken.filter (· < n) := by
      intro d hd
      have hd' := Finset.mem_range.mp hd
      refine Finset.mem_filter.mpr ⟨?_, hd'⟩
      by_contra hfree
      exact hle ((h.2 hfree).trans_lt hd')
    have hle' := Finset.card_le_card hsub
    rw [Finset.card_range] at hle'
    exact absurd hcard (not_lt.mpr hle')

/-- The server, and the files that the workers have open. -/
structure Descriptors (W : Type*) extends WebServer W where
  file : W → Option ℕ

namespace Descriptors

variable {W : Type*}

def start (maxRequest : ℕ) (mSockfd : ℕ → Option ℕ) : Descriptors W where
  toWebServer := .start maxRequest mSockfd
  file _ := none

/-- Standard input, output and error, `listen_fd` and `epoll_fd`. -/
def ofMain : Finset ℕ := {0, 1, 2, 3, 4}

variable [Fintype W]

/-- The descriptors that the workers have open. -/
def files (s : Descriptors W) : Finset ℕ := Finset.univ.biUnion fun w => (s.file w).toFinset

/-- All descriptors that are open. -/
def taken (s : Descriptors W) : Finset ℕ := ofMain ∪ s.fds ∪ s.files

/-- The lowest descriptor that is free. -/
def Lowest (s : Descriptors W) (fd : ℕ) : Prop := IsLeast {d | d ∉ s.taken} fd

variable [DecidableEq W]

inductive Call (W : Type*)
  | server (e : Event W)
  | openFile (w : W) (fd : ℕ)
  | closeFile (w : W)

/-- A worker has a file open within `do_request` only, which is before its answer. -/
inductive Step : Descriptors W → Call W → Descriptors W → Prop
  | server {s : Descriptors W} {e : Event W} {server : WebServer W} :
      WebServer.Step s.toWebServer e server → (∀ fd, e = .accept fd → s.Lowest fd) →
      (∀ w answer, e = .answer w answer → s.file w = none) →
        Step s (.server e) { s with toWebServer := server }
  | openFile {s : Descriptors W} {w : W} {k fd : ℕ} :
      s.pool.worker w = .process k → s.place w = .read → s.file w = none → s.Lowest fd →
        Step s (.openFile w fd) { s with file := Function.update s.file w (some fd) }
  | closeFile {s : Descriptors W} {w : W} {fd : ℕ} : s.file w = some fd →
      Step s (.closeFile w) { s with file := Function.update s.file w none }

omit [Fintype W] [DecidableEq W] in
/-- `init` is called of an object in `users`. -/
def InUsers (s : Descriptors W) : Call W → Prop
  | .server (.accept fd) => s.mUserCount < maxFd → (fd : ℤ) < maxFd
  | _ => True

omit [DecidableEq W] in
/-- A user is admitted while the connections, the files with a number below `MAX_FD` and the five
descriptors of `main` are fewer than `MAX_FD`. -/
def Spare (s : Descriptors W) : Call W → Prop
  | .server (.accept _) => s.mUserCount < maxFd →
    ofMain.card + s.fds.card + (s.files.filter (· < maxFd.toNat)).card < maxFd.toNat
  | _ => True

end Descriptors

/-! ### Where the descriptors are -/

variable {W : Type*}

lemma fds_modFd (s : WebServer W) (k : ℕ) : (s.modFd k).fds = s.fds := sameUsers_modFd.fds

lemma fds_closeConn_subset (s : WebServer W) (k : ℕ) : (s.closeConn k).fds ⊆ s.fds := by
  rw [WebServer.closeConn]
  split
  · exact Finset.Subset.refl _
  · exact Finset.erase_subset _ _

lemma fds_write_subset (s : WebServer W) (k : ℕ) (result : Write) : (s.write k result).fds ⊆ s.fds := by
  cases result with
  | nothing => exact (fds_modFd s k).subset
  | again => exact (fds_modFd s k).subset
  | error => exact fds_closeConn_subset s k
  | sent => exact (fds_closeConn_subset _ k).trans (fds_modFd s k).subset

variable [DecidableEq W]

lemma fds_answer_subset (s : WebServer W) (w : W) (k : ℕ) (answer : Answer) :
    (s.answer w k answer).fds ⊆ s.fds := by
  cases answer with
  | noRequest => exact (fds_modFd s k).subset
  | written => exact (fds_modFd s k).subset
  | failed =>
    rw [WebServer.answer]
    split
    · exact Finset.Subset.refl _
    · exact Finset.erase_subset _ _

/-- Only an accepted connection adds a descriptor. -/
lemma Step.mem_fds {s s' : WebServer W} {e : Event W} {fd : ℕ} (hs : Step s e s') (hfd : fd ∈ s'.fds) :
    fd ∈ s.fds ∨ (e = .accept fd ∧ s.mUserCount < maxFd) := by
  cases hs with
  | epollWait => exact .inl hfd
  | acceptFails => exact .inl hfd
  | accept =>
    rw [WebServer.accept] at hfd
    split at hfd
    next => exact .inl hfd
    next hroom =>
      rcases Finset.mem_insert.mp hfd with rfl | hold
      · exact .inr ⟨rfl, not_le.mp hroom⟩
      · exact .inl hold
  | @read rest k _ drained _ _ _ =>
    cases drained with
    | true => exact .inl hfd
    | false => exact .inl (fds_closeConn_subset (s.next rest) k hfd)
  | @write rest k _ result _ _ _ _ => exact .inl (fds_write_subset (s.next rest) k result hfd)
  | @hangUp rest k _ _ _ _ _ _ => exact .inl (fds_closeConn_subset (s.next rest) k hfd)
  | post => exact .inl hfd
  | pool =>
    rw [sameUsers_fetch.fds] at hfd
    exact .inl hfd
  | answer => exact .inl (fds_answer_subset _ _ _ _ hfd)
  | unset => exact .inl hfd
  | modFd => exact .inl ((fds_modFd _ _).subset hfd)

namespace Descriptors

variable [Fintype W] {s s' : Descriptors W} {e : Call W} {w : W} {fd : ℕ}

omit [DecidableEq W] in
lemma mem_files : fd ∈ s.files ↔ ∃ w, s.file w = some fd := by
  simp only [files, Finset.mem_biUnion, Finset.mem_univ, true_and, Option.mem_toFinset, Option.mem_def]

omit [DecidableEq W] in
lemma mem_taken : fd ∈ s.taken ↔ fd ∈ ofMain ∨ fd ∈ s.fds ∨ fd ∈ s.files := by
  rw [taken, Finset.mem_union, Finset.mem_union, or_assoc]

omit [DecidableEq W] in
/-- The connections are in `users`, and no descriptor is open for two purposes. -/
structure Placed (s : Descriptors W) : Prop where
  lt : ∀ fd ∈ s.fds, (fd : ℤ) < maxFd
  fds : ∀ fd ∈ s.fds, fd ∉ ofMain
  files : ∀ fd ∈ s.files, fd ∉ ofMain ∧ fd ∉ s.fds

omit [DecidableEq W] in
/-- What is taken below `MAX_FD`. -/
lemma Placed.card_taken (h : s.Placed) : (s.taken.filter (· < maxFd.toNat)).card =
    ofMain.card + s.fds.card + (s.files.filter (· < maxFd.toNat)).card := by
  have hmain : ofMain.filter (· < maxFd.toNat) = ofMain := by decide
  have hfds : s.fds.filter (· < maxFd.toNat) = s.fds := by
    refine Finset.filter_true_of_mem fun fd hfd => ?_
    have hlt := h.lt fd hfd
    rw [maxFd] at hlt ⊢
    omega
  have hdisjoint : Disjoint ofMain s.fds := Finset.disjoint_right.mpr h.fds
  have hdisjoint' : Disjoint (ofMain ∪ s.fds) (s.files.filter (· < maxFd.toNat)) := by
    refine Finset.disjoint_right.mpr fun fd hfd hmem => ?_
    obtain ⟨hmain', hfds'⟩ := h.files fd (Finset.mem_filter.mp hfd).1
    exact (Finset.mem_union.mp hmem).elim hmain' hfds'
  rw [taken, Finset.filter_union, Finset.filter_union, hmain, hfds,
    Finset.card_union_of_disjoint hdisjoint', Finset.card_union_of_disjoint hdisjoint]

/-! ### Steps -/

omit [DecidableEq W] in
lemma Lowest.notMem (h : s.Lowest fd) : fd ∉ ofMain ∧ fd ∉ s.fds ∧ fd ∉ s.files := by
  have hfree : fd ∉ s.taken := h.1
  rw [mem_taken] at hfree
  exact ⟨fun hmem => hfree (.inl hmem), fun hmem => hfree (.inr (.inl hmem)),
    fun hmem => hfree (.inr (.inr hmem))⟩

omit [DecidableEq W] in
lemma Placed.lowest_lt_iff (h : s.Placed) (hfd : s.Lowest fd) : (fd : ℤ) < maxFd ↔
    ofMain.card + s.fds.card + (s.files.filter (· < maxFd.toNat)).card < maxFd.toNat := by
  rw [← h.card_taken, ← isLeast_lt_iff hfd, maxFd]
  omega

omit [DecidableEq W] in
/-- The server goes on, with the connections that it had or a new one at a place in `users`. -/
lemma Placed.server {server : WebServer W} (h : s.Placed)
    (hfds : ∀ fd ∈ server.fds, fd ∈ s.fds ∨ (s.Lowest fd ∧ (fd : ℤ) < maxFd)) :
    Placed { s with toWebServer := server } := by
  refine ⟨fun fd hfd => ?_, fun fd hfd => ?_, fun fd hfd => ⟨(h.files fd hfd).1, fun hopen => ?_⟩⟩
  · rcases hfds fd hfd with hold | ⟨-, hlt⟩
    · exact h.lt fd hold
    · exact hlt
  · rcases hfds fd hfd with hold | ⟨hlow, -⟩
    · exact h.fds fd hold
    · exact hlow.notMem.1
  · rcases hfds fd hopen with hold | ⟨hlow, -⟩
    · exact (h.files fd hfd).2 hold
    · exact hlow.notMem.2.2 hfd

/-- A worker opens a file or closes it. -/
lemma mem_files_update {file : Option ℕ} {d : ℕ}
    (hd : d ∈ files { s with file := Function.update s.file w file }) : file = some d ∨ d ∈ s.files := by
  obtain ⟨v, hv⟩ := mem_files.mp hd
  have hv' : Function.update s.file w file v = some d := hv
  by_cases hvw : v = w
  · subst hvw
    rw [Function.update_self] at hv'
    exact .inl hv'
  · rw [Function.update_of_ne hvw] at hv'
    exact .inr (mem_files.mpr ⟨v, hv'⟩)

/-- Exactly when there are spare descriptors the object that is initialised is in `users`. -/
lemma Step.placed (h : s.Placed) (hs : Step s e s') :
    (s.InUsers e ↔ s.Spare e) ∧ (s.Spare e → s'.Placed) := by
  cases hs with
  | @server e server hstep hlowest _ =>
    have hfds : ∀ fd ∈ server.fds, fd ∈ s.fds ∨ (e = .accept fd ∧ s.mUserCount < maxFd) :=
      fun fd hfd => hstep.mem_fds hfd
    by_cases he : ∃ fd, e = .accept fd
    · obtain ⟨fd, rfl⟩ := he
      have hlow := hlowest fd rfl
      have hiff : s.InUsers (.server (.accept fd)) ↔ s.Spare (.server (.accept fd)) :=
        imp_congr_right fun _ => h.lowest_lt_iff hlow
      refine ⟨hiff, fun hspare => h.server fun fd' hfd' => ?_⟩
      rcases hfds fd' hfd' with hold | ⟨heq, hroom⟩
      · exact .inl hold
      · cases heq
        exact .inr ⟨hlow, hiff.mpr hspare hroom⟩
    · have hother : ∀ fd, e ≠ .accept fd := fun fd heq => he ⟨fd, heq⟩
      refine ⟨?_, fun _ => h.server fun fd hfd => .inl ((hfds fd hfd).resolve_right ?_)⟩
      · cases e with
        | accept fd => exact absurd rfl (hother fd)
        | _ => exact Iff.rfl
      · exact fun hnew => hother fd hnew.1
  | openFile _ _ _ hlow =>
    refine ⟨Iff.rfl, fun _ => ⟨h.lt, h.fds, fun d hd => ?_⟩⟩
    rcases mem_files_update hd with hnew | hold
    · cases hnew
      exact ⟨hlow.notMem.1, hlow.notMem.2.1⟩
    · exact h.files d hold
  | closeFile _ =>
    refine ⟨Iff.rfl, fun _ => ⟨h.lt, h.fds, fun d hd => ?_⟩⟩
    rcases mem_files_update hd with hnew | hold
    · cases hnew
    · exact h.files d hold

/-! ### Runs -/

omit [DecidableEq W] in
lemma placed_start (maxRequest : ℕ) (mSockfd : ℕ → Option ℕ) :
    (start maxRequest mSockfd : Descriptors W).Placed := by
  refine ⟨nofun, nofun, fun fd hfd => ?_⟩
  obtain ⟨w, hw⟩ := mem_files.mp hfd
  cases hw

/-- In a run only objects in `users` are initialised if and only if every user is admitted while there are
spare descriptors. -/
theorem run_inUsers_iff {maxRequest : ℕ} {mSockfd : ℕ → Option ℕ} {es : List (Call W)} :
    Trace (fun s e s' => Step s e s' ∧ s.InUsers e) (start maxRequest mSockfd) es s ↔
      Trace (fun s e s' => Step s e s' ∧ s.Spare e) (start maxRequest mSockfd) es s :=
  Trace.guard_iff (fun _ _ _ h hs => hs.placed h) (placed_start maxRequest mSockfd)

/-- `n` users were accepted, one after the other. -/
structure Filled (s : Descriptors Unit) (n : ℕ) (batch : List Ready) : Prop where
  idle : s.pool.appender () = .idle
  batch : s.batch = batch
  fds : s.fds = Finset.Ico 5 (5 + n)
  count : s.mUserCount = n
  file : ∀ w, s.file w = none

variable {t : Descriptors Unit} {n : ℕ} {batch : List Ready}

lemma Filled.lowest (h : t.Filled n batch) : t.Lowest (5 + n) := by
  have hfiles : t.files = ∅ := by
    refine Finset.eq_empty_of_forall_notMem fun d hd => ?_
    obtain ⟨w, hw⟩ := mem_files.mp hd
    cases (h.file w).symm.trans hw
  have htaken : ∀ d, d ∈ t.taken ↔ d < 5 + n := by
    intro d
    rw [mem_taken, h.fds, hfiles]
    simp only [ofMain, Finset.mem_insert, Finset.mem_singleton, Finset.mem_Ico, Finset.notMem_empty,
      or_false]
    omega
  refine ⟨fun hmem => ?_, fun d hd => ?_⟩
  · exact absurd ((htaken _).mp hmem) (lt_irrefl _)
  · exact not_lt.mp fun hlt => hd ((htaken d).mpr hlt)

lemma Filled.report (h : t.Filled n []) :
    ∃ t', Step t (.server (.epollWait [.listen])) t' ∧ t'.Filled n [.listen] := by
  have hwait : WebServer.Step t.toWebServer (.epollWait [.listen]) _ :=
    .epollWait h.batch h.idle List.nodup_nil nofun
  exact ⟨_, .server hwait nofun nofun, h.idle, rfl, h.fds, h.count, h.file⟩

lemma Filled.accept (h : t.Filled n [.listen]) (hn : (n : ℤ) < maxFd) :
    ∃ t', Step t (.server (.accept (5 + n))) t' ∧ t'.Filled (n + 1) [] := by
  have hlow := h.lowest
  have haccept : WebServer.Step t.toWebServer (.accept (5 + n)) _ := .accept h.idle h.batch hlow.notMem.2.1
  have hroom : ¬ maxFd ≤ (t.next []).mUserCount := not_le.mpr (h.count.trans_lt hn)
  rw [WebServer.accept, if_neg hroom] at haccept
  refine ⟨_, .server haccept (fun fd heq => ?_) (fun w answer heq => ?_), h.idle, rfl, ?_, ?_, h.file⟩
  · cases heq
    exact hlow
  · cases heq
  · show insert (5 + n) t.fds = Finset.Ico 5 (5 + n).succ
    rw [h.fds, Nat.Ico_succ_right_eq_insert_Ico (Nat.le_add_right 5 n)]
  · show t.mUserCount + 1 = ((n + 1 : ℕ) : ℤ)
    rw [h.count, Nat.cast_succ]

/-- The server accepts until a user is initialised behind the end of `users`. -/
theorem run_notInUsers : ∃ (es : List (Call Unit)) (s s' : Descriptors Unit),
    Trace Step (start 10000 fun _ => none) es s ∧ Step s (.server (.accept 65536)) s' ∧
      s.mUserCount = 65531 ∧ ¬ s.InUsers (.server (.accept 65536)) := by
  have hfill : ∀ n : ℕ, (n : ℤ) ≤ maxFd →
      ∃ es s, Trace Step (start 10000 fun _ => none) es s ∧ Filled s n [] := by
    intro n
    induction n with
    | zero => exact fun _ => ⟨[], _, .nil _, rfl, rfl, rfl, rfl, fun _ => rfl⟩
    | succ n ih =>
      intro hn
      obtain ⟨es, s, hrun, hs⟩ := ih (by omega)
      obtain ⟨t, hwait, ht⟩ := hs.report
      obtain ⟨s', haccept, hs'⟩ := ht.accept (by omega)
      exact ⟨_, s', (hrun.snoc hwait).snoc haccept, hs'⟩
  obtain ⟨es, s, hrun, hs⟩ := hfill 65531 (by decide)
  obtain ⟨t, hwait, ht⟩ := hs.report
  obtain ⟨t', haccept, -⟩ := ht.accept (by decide)
  refine ⟨_, t, t', hrun.snoc hwait, haccept, ht.count, fun hin => ?_⟩
  have hroom : t.mUserCount < maxFd := by
    rw [ht.count]
    decide
  exact absurd (hin hroom) (by decide)

end Descriptors

end LinuxServer.WebServer
