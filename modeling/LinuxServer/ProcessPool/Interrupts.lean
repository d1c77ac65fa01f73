import LinuxServer.CgiConn.Runs
import LinuxServer.ProcessPool.Child

/-!
# Interrupts of a worker

The test behind `epoll_wait` lets `EAGAIN` pass where `EINTR` is meant. So a signal that is handled while
the worker waits ends it, whatever the signal; everything else that can happen ends it only
for a reason.
-/

namespace LinuxServer.ProcessPool.Child

open Core

variable {s s' : Child} {e : Event} {pid : ℤ} {exited : List ℤ}

/-! ### Signals -/

lemma waitpid_snd (s : Child) : ∃ exited, s.waitpid.2 = { s with exited := exited } := by
  rw [waitpid]
  split
  next rest _ => exact ⟨rest, rfl⟩
  next => exact ⟨s.exited, rfl⟩

lemma reapLoop_exited : ∀ (fuel : ℕ) (s s' : Child), s.reapLoop pid fuel = some s' →
    ∃ exited, s' = { s with exited := exited }
  | 0, _, _, h => by cases h
  | fuel + 1, s, s', h => by
    obtain ⟨exited, hwaitpid⟩ := waitpid_snd s
    rw [reapLoop, hwaitpid] at h
    split at h
    · obtain ⟨exited', rfl⟩ := reapLoop_exited fuel _ s' h
      exact ⟨exited', rfl⟩
    · cases h
      exact ⟨exited, rfl⟩

/-- A byte that asks the worker to stop. -/
def asksStop (b : Sig × ℤ) : Bool := decide (b.1 ≠ .sigchld)

lemma signal_eq {b : Sig × ℤ} (h : s.signal b = some s') :
    ∃ exited, s' = { s with exited := exited, mStop := s.mStop || asksStop b } := by
  obtain ⟨sig, pid⟩ := b
  cases sig with
  | sigchld =>
    obtain ⟨exited, rfl⟩ := reapLoop_exited _ _ _ h
    exact ⟨exited, by simp [asksStop]⟩
  | sigterm =>
    cases h
    exact ⟨s.exited, by simp [asksStop]⟩
  | sigint =>
    cases h
    exact ⟨s.exited, by simp [asksStop]⟩

lemma foldlM_signal_eq : ∀ {bytes : List (Sig × ℤ)} {s s' : Child}, bytes.foldlM signal s = some s' →
    ∃ exited, s' = { s with exited := exited, mStop := s.mStop || bytes.any asksStop }
  | [], s, s', h => by
    cases h
    exact ⟨s.exited, by simp⟩
  | b :: rest, s, s', h => by
    rw [List.foldlM_cons] at h
    obtain ⟨s₁, hb, hrest⟩ := Option.bind_eq_some_iff.mp h
    obtain ⟨exited₁, rfl⟩ := signal_eq hb
    obtain ⟨exited, rfl⟩ := foldlM_signal_eq hrest
    exact ⟨exited, by simp [Bool.or_assoc]⟩

lemma any_asksStop {bytes : List (Sig × ℤ)} : bytes.any asksStop = true ↔
    .sigterm ∈ bytes.map Prod.fst ∨ .sigint ∈ bytes.map Prod.fst := by
  simp only [List.any_eq_true, asksStop, decide_eq_true_eq, List.mem_map]
  constructor
  · rintro ⟨⟨sig, pid⟩, hmem, hne⟩
    cases sig with
    | sigchld => exact absurd rfl hne
    | sigterm => exact .inl ⟨_, hmem, rfl⟩
    | sigint => exact .inr ⟨_, hmem, rfl⟩
  · rintro (⟨b, hmem, hb⟩ | ⟨b, hmem, hb⟩)
    · exact ⟨b, hmem, by simp [hb]⟩
    · exact ⟨b, hmem, by simp [hb]⟩

/-! ### Steps -/

/-- What holds of a worker at any time. -/
structure Attends (s : Child) : Prop where
  stopped : s.mStop = true ↔ s.Stopped
  registered : ∀ fd, .conn fd ∈ s.events → fd ∈ s.conns
  nodup : s.events.Nodup
  users : ∀ fd ∈ s.conns, (s.users fd).sockfd = fd ∧ (s.users fd).epollFd = s.epollFd

lemma attends_init (epollFd : ℤ) (users : ℤ → CgiConn) : (init epollFd users).Attends where
  stopped := by simp [init, Stopped]
  registered fd h := absurd h List.not_mem_nil
  nodup := List.nodup_nil
  users fd h := absurd h (Finset.notMem_empty fd)

namespace Attends

variable {rest : List Ready} {ready : Ready}

lemma leave (h : s.Attends) (hevents : s.events = []) : s.leave.Attends where
  stopped := h.stopped
  registered fd hfd := by
    rw [show s.leave.events = [] from hevents] at hfd
    exact absurd hfd List.not_mem_nil
  nodup := h.nodup
  users fd hfd := absurd hfd (Finset.notMem_empty fd)

/-- The first event is taken out. -/
lemma tail (h : s.Attends) (hevents : s.events = ready :: rest) :
    Attends { s with events := rest } where
  stopped := h.stopped
  registered fd hfd := h.registered fd (hevents ▸ List.mem_cons_of_mem _ hfd)
  nodup := (List.nodup_cons.mp (hevents ▸ h.nodup)).2
  users := h.users

lemma accept (h : s.Attends) (connfd : Option ℤ) : (s.accept connfd).Attends := by
  cases connfd with
  | none => exact h
  | some connfd =>
    refine { h with registered := ?_, users := ?_ }
    · intro fd hfd
      exact Finset.mem_insert_of_mem (h.registered fd hfd)
    · intro fd hfd
      show (Function.update s.users connfd _ fd).sockfd = fd ∧ _
      by_cases heq : fd = connfd
      · subst heq
        exact ⟨by simp [CgiConn.init], by simp [Child.accept, CgiConn.init]⟩
      · have hold := h.users fd ((Finset.mem_insert.mp hfd).resolve_left heq)
        exact ⟨by simpa [heq] using hold.1, by simpa [Child.accept, heq] using hold.2⟩

lemma newConn (h : s.Attends) (ret : CgiConn.Recv) (connfd : Option ℤ) :
    (s.newConn ret connfd).Attends := by
  cases ret with
  | error => exact h
  | zero => exact h
  | eagain => exact h.accept connfd
  | data _ => exact h.accept connfd

lemma signals {bytes : List (Sig × ℤ)} (h : s.Attends) (hs : s.signals bytes = some s') :
    s'.Attends := by
  obtain ⟨exited, rfl⟩ := foldlM_signal_eq hs
  refine { h with stopped := ?_ }
  show (s.mStop || bytes.any asksStop) = true ↔ _
  rw [Bool.or_eq_true, h.stopped, any_asksStop, Stopped, Stopped]
  simp only [List.mem_append]
  tauto

/-- `process` of a registered connection removes at most this connection. -/
lemma processed {sockfd : ℤ} {sys : CgiConn.System} {rets : List CgiConn.Recv}
    {effects : List CgiConn.Effect} {conn : CgiConn} (h : s.Attends)
    (hevents : s.events = .conn sockfd :: rest)
    (hprocess : (s.users sockfd).process sys rets = some (effects, conn)) :
    Attends (Child.processed { s with events := rest } sockfd pid effects conn) ∧
      ∀ fd ∈ s.conns, .removefd s.epollFd fd ∈ effects → fd = sockfd := by
  have hmem : sockfd ∈ s.conns := h.registered sockfd (hevents ▸ List.mem_cons_self)
  obtain ⟨hsockfd, hepollFd⟩ := h.users sockfd hmem
  have hown := CgiConn.process_ownFd hprocess
  have hremoves : ∀ fd ∈ s.conns, .removefd s.epollFd fd ∈ effects → fd = sockfd := by
    intro fd _ hremove
    rw [(hown.removefd _ _ hremove).2, hsockfd]
  have hnodup := h.nodup
  rw [hevents, List.nodup_cons] at hnodup
  refine ⟨{ stopped := h.stopped, registered := ?_, nodup := hnodup.2, users := ?_ }, hremoves⟩
  · intro fd hfd
    have hconn := h.registered fd (hevents ▸ List.mem_cons_of_mem _ hfd)
    refine Finset.mem_filter.mpr ⟨hconn, ?_⟩
    intro hremove
    exact hnodup.1 (hremoves fd hconn hremove ▸ hfd)
  · intro fd hfd
    have hold := h.users fd (Finset.mem_filter.mp hfd).1
    show (Function.update s.users sockfd conn fd).sockfd = fd ∧
      (Function.update s.users sockfd conn fd).epollFd = s.epollFd
    by_cases heq : fd = sockfd
    · subst heq
      rw [Function.update_self, hown.sockfd, hown.epollFd]
      exact hold
    · rw [Function.update_of_ne heq]
      exact hold

end Attends

/-- A step that ends nothing and drops nothing. -/
lemma keeps_of_subset (hleft : s'.left = false) (hconns : s.conns ⊆ s'.conns) : Keeps s e s' where
  left h := by
    rw [hleft] at h
    cases h
  conns _ hfd hnot := absurd (hconns hfd) hnot

lemma keeps_of_mayLeave (h : s.MayLeave e) : Keeps s e s' := ⟨fun _ => h, fun _ _ _ => .inr h⟩

lemma signals_stays {bytes : List (Sig × ℤ)} (h : s.signals bytes = some s') :
    s'.left = s.left ∧ s'.conns = s.conns := by
  obtain ⟨exited, rfl⟩ := foldlM_signal_eq h
  exact ⟨rfl, rfl⟩

lemma newConn_stays (s : Child) (ret : CgiConn.Recv) (connfd : Option ℤ) :
    (s.newConn ret connfd).left = s.left ∧ s.conns ⊆ (s.newConn ret connfd).conns := by
  have haccept : (s.accept connfd).left = s.left ∧ s.conns ⊆ (s.accept connfd).conns := by
    cases connfd with
    | none => exact ⟨rfl, subset_rfl⟩
    | some fd => exact ⟨rfl, Finset.subset_insert _ _⟩
  cases ret with
  | error => exact ⟨rfl, subset_rfl⟩
  | zero => exact ⟨rfl, subset_rfl⟩
  | eagain => exact haccept
  | data _ => exact haccept

/-- Without an interrupt the worker goes on as it should. -/
lemma Attends.act_keeps (h : s.Attends) (hleft : s.left = false) (hs : Act s e s')
    (hok : s.Uninterrupted e) : Keeps s e s' ∧ s'.Attends := by
  cases hs with
  | epollWait _ _ hnodup hconns =>
    exact ⟨keeps_of_subset hleft subset_rfl, { h with registered := hconns, nodup := hnodup }⟩
  | @epollFail errno hevents _ _ =>
    have hne : errno ≠ .eintr := by
      rintro rfl
      exact hok rfl
    refine ⟨keeps_of_mayLeave (.inr ⟨errno, hne, rfl⟩), ?_⟩
    rw [epollFail]
    split
    · exact h.leave hevents
    · exact { h with }
  | stop hevents hstop =>
    exact ⟨keeps_of_mayLeave (.inl (h.stopped.mp hstop)), h.leave hevents⟩
  | @newConn rest ret connfd hevents _ =>
    obtain ⟨hleft', hconns⟩ := newConn_stays { s with events := rest } ret connfd
    exact ⟨keeps_of_subset (hleft'.trans hleft) hconns, (h.tail hevents).newConn ret connfd⟩
  | @signals _ rest bytes later hevents _ _ _ hsignals =>
    have htail : Attends { s with events := rest, sigPipe := later } := { h.tail hevents with }
    obtain ⟨hleft', hconns⟩ := signals_stays hsignals
    exact ⟨keeps_of_subset (hleft'.trans hleft) (hconns ▸ subset_rfl), htail.signals hsignals⟩
  | @process rest sockfd pid sys rets effects conn hevents hprocess =>
    obtain ⟨hattends, hremoves⟩ := h.processed hevents hprocess
    refine ⟨⟨fun h => ?_, fun fd hfd hnot => .inl ?_⟩, hattends⟩
    · cases hleft.symm.trans h
    · by_cases hremove : .removefd s.epollFd fd ∈ effects
      · rw [hremoves fd hfd hremove]
        exact ⟨sys, rets, pid, rfl⟩
      · exact absurd (Finset.mem_filter.mpr ⟨hfd, hremove⟩) hnot
  | skip hevents _ => exact ⟨keeps_of_subset hleft subset_rfl, h.tail hevents⟩
  | exit _ _ => exact ⟨keeps_of_subset hleft subset_rfl, { h with }⟩
  | raise => exact ⟨keeps_of_subset hleft subset_rfl, { h with }⟩
  | sigHandler _ => exact ⟨keeps_of_subset hleft subset_rfl, { h with }⟩
  | cont => exact ⟨keeps_of_subset hleft subset_rfl, { h with }⟩

/-- An interrupt of `epoll_wait` ends the worker, which was not asked to stop. -/
lemma Attends.not_keeps (h : s.Attends) (hs : Act s (.epollFail .eintr) s') :
    ¬ Keeps s (.epollFail .eintr) s' := by
  intro hkeeps
  cases hs with
  | epollFail _ hstop _ =>
    rcases hkeeps.left rfl with hstopped | ⟨errno, hne, heq⟩
    · rw [h.stopped.mpr hstopped] at hstop
      cases hstop
    · cases heq
      exact hne rfl

/-! ### Runs -/

/-- In a run the worker leaves its loop, and drops connections, only for a reason if and only if no
`epoll_wait` is interrupted. -/
theorem run_keeps_iff {epollFd : ℤ} {users : ℤ → CgiConn} {es : List Event} :
    Trace (fun s e s' => Step s e s' ∧ Keeps s e s') (init epollFd users) es s ↔
      Trace (fun s e s' => Step s e s' ∧ s.Uninterrupted e) (init epollFd users) es s := by
  refine Trace.guard_iff (I := Attends) ?_ (attends_init epollFd users)
  intro s e s' h hs
  refine ⟨⟨?_, fun hok => (h.act_keeps hs.1 hs.2 hok).1⟩, fun hok => (h.act_keeps hs.1 hs.2 hok).2⟩
  rintro hkeeps rfl
  exact h.not_keeps hs.2 hkeeps

/-- The connections 7 and 8 are accepted; 7 asks for the program `l`, which ends while the worker is in
`epoll_wait`. -/
def cgiEvents : List Event :=
  [.epollWait [.pipe], .newConn .eagain (some 7), .epollWait [.pipe], .newConn .eagain (some 8),
    .epollWait [.conn 7],
    .process 7 ⟨fun _ => true, true⟩ [.data (ascii ['l', '\r', '\n'])] 500,
    .exit 500, .sigHandler .sigchld true]

set_option maxRecDepth 8000 in
/-- The end of a CGI program interrupts `epoll_wait`, and ends the worker with its other connection. -/
theorem run_notKeeps : ∃ s s' : Child,
    Trace Step (init 3 fun _ => .init 3 (-1)) cgiEvents s ∧ Step s (.epollFail .eintr) s' ∧
      s.conns = {8} ∧ s.received = [] ∧ s'.left = true ∧ s'.conns = ∅ ∧
      ¬ Keeps s (.epollFail .eintr) s' := by
  have hrun : Trace Step (init 3 fun _ => .init 3 (-1)) cgiEvents _ :=
    .cons ⟨rfl, .epollWait rfl rfl (by decide) (by simp)⟩
      (.cons ⟨rfl, .newConn rfl (by decide)⟩
      (.cons ⟨rfl, .epollWait rfl rfl (by decide) (by simp)⟩
      (.cons ⟨rfl, .newConn rfl (by decide)⟩
      (.cons ⟨rfl, .epollWait rfl rfl (by decide) fun fd hfd => by
        obtain rfl : fd = 7 := by simpa using hfd
        decide⟩
      (.cons ⟨rfl, .process rfl rfl⟩
      (.cons ⟨rfl, @Act.exit _ _ [] [] (by decide) rfl⟩
      (.cons ⟨rfl, .sigHandler (by decide)⟩ (.nil _))))))))
  refine ⟨_, _, hrun, ⟨rfl, .epollFail rfl rfl fun _ => rfl⟩, by decide, rfl, rfl, rfl, ?_⟩
  intro hkeeps
  rcases hkeeps.left rfl with hstopped | ⟨errno, hne, heq⟩
  · rcases hstopped with hterm | hint
    · cases hterm
    · cases hint
  · cases heq
    exact hne rfl

end LinuxServer.ProcessPool.Child
