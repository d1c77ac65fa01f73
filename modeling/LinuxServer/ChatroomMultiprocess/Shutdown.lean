import LinuxServer.ChatroomMultiprocess.Segments

/-!
# The end of the multi-process chat server

SIGTERM is handed on to the processes in `users[i].pid`, and the server stops when it finds itself without
users. But nothing assigns to `pid` of a user: it is what stood there before the server began.
-/

namespace LinuxServer.ChatroomMultiprocess

open Core

variable {s s' s'' : ChatroomMultiprocess} {users : ℕ → ClientData} {fds : Finset ℕ} {e : Event}
  {es : List Event} {c : ℕ}

lemma Step.det (hs : Step s e s') (hs' : Step s e s'') : s' = s'' := by
  cases hs with
  | accept _ h => cases hs' with | accept _ h' => exact Option.some_inj.mp (h.symm.trans h')
  | exit _ h => cases hs' with | exit _ h' => exact Option.some_inj.mp (h.symm.trans h')
  | sigchldDone => cases hs'; rfl
  | sigterm => cases hs'; rfl

/-! ### Whom the server kills -/

/-- Every process id in `users` stood there before, and so did every one that SIGTERM was sent to. -/
structure Leftover (users : ℕ → ClientData) (s : ChatroomMultiprocess) : Prop where
  pids : ∀ i, ∃ j, (s.users i).pid = (users j).pid
  killed : ∀ pid ∈ s.killed, ∃ j, pid = (users j).pid

lemma leftover_start : Leftover users (start users fds) :=
  ⟨fun i => ⟨i, rfl⟩, by simp [start]⟩

lemma Leftover.prepare {connfd p₀ p₁ : ℕ} (h : Leftover users s) : Leftover users (s.prepare connfd p₀ p₁) := by
  refine ⟨fun i => ?_, h.killed⟩
  by_cases hi : i = s.userCount
  · subst hi
    simpa [ChatroomMultiprocess.prepare] using h.pids s.userCount
  · simpa [ChatroomMultiprocess.prepare, hi] using h.pids i

lemma Leftover.removeUser {i : ℕ} (h : Leftover users s) (hs : s.removeUser i = some s') :
    Leftover users s' := by
  obtain ⟨n, -, -, rfl⟩ := removeUser_eq hs
  refine ⟨fun j => ?_, h.killed⟩
  by_cases hj : j = i
  · subst hj
    simpa [setSubProcess, moveLast] using h.pids n
  · simpa [setSubProcess, moveLast, hj] using h.pids j

lemma Leftover.handleExit (h : Leftover users s) (hs : s.handleExit c = some s') : Leftover users s' := by
  have hreap : ∀ pid i, Leftover users ((s.reap c).setSubProcess pid i) := fun _ _ => ⟨h.pids, h.killed⟩
  rw [ChatroomMultiprocess.handleExit] at hs
  split at hs
  next =>
    cases hs
    exact hreap _ _
  next => exact (hreap _ _).removeUser hs

lemma Step.leftover (hs : Step s e s') (h : Leftover users s) : Leftover users s' := by
  cases hs with
  | @accept _ connfd p₀ p₁ fork _ haccept =>
    have hprepare : Leftover users (s.prepare connfd p₀ p₁) := h.prepare
    rcases accept_cases haccept with ⟨-, rfl⟩ | ⟨-, -, rfl⟩ | ⟨-, pid, -, -, rfl⟩
    · exact h
    · exact hprepare
    · exact ⟨hprepare.pids, hprepare.killed⟩
  | exit _ hexit => exact h.handleExit hexit
  | sigchldDone => exact ⟨h.pids, h.killed⟩
  | sigterm =>
    rw [ChatroomMultiprocess.sigterm]
    split
    next => exact ⟨h.pids, h.killed⟩
    next =>
      refine ⟨h.pids, fun pid hpid => ?_⟩
      rcases List.mem_append.mp hpid with hold | hnew
      · exact h.killed pid hold
      · obtain ⟨i, -, -, rfl⟩ := mem_segment.mp hnew
        exact h.pids i

/-! ### When the server stops -/

/-- Some signal was handled when there was no user, and it was SIGTERM or SIGINT, or it was SIGCHLD behind
one of these. -/
def Ends (users : ℕ → ClientData) (fds : Finset ℕ) (es : List Event) : Prop :=
  ∃ es₁ e es₂ s, es = es₁ ++ e :: es₂ ∧ Trace Step (start users fds) es₁ s ∧ s.userCount = 0 ∧
    (e = .sigterm ∨ e = .sigchldDone ∧ .sigterm ∈ es₁)

lemma ends_nil : ¬ Ends users fds [] := by
  rintro ⟨es₁, e, es₂, s, heq, -⟩
  simp at heq

lemma ends_snoc (hrun : Trace Step (start users fds) es s) : Ends users fds (es ++ [e]) ↔
    Ends users fds es ∨ s.userCount = 0 ∧ (e = .sigterm ∨ e = .sigchldDone ∧ .sigterm ∈ es) := by
  constructor
  · rintro ⟨es₁, e', es₂, s₁, heq, hrun₁, hzero, hends⟩
    rcases List.eq_nil_or_concat es₂ with rfl | ⟨es₂, x, rfl⟩
    · obtain ⟨rfl, heq⟩ := List.append_inj' heq rfl
      obtain rfl : e = e' := by simpa using heq
      obtain rfl := hrun.det (fun _ _ _ _ hs hs' => hs.det hs') hrun₁
      exact .inr ⟨hzero, hends⟩
    · rw [List.concat_eq_append, ← List.cons_append, ← List.append_assoc] at heq
      exact .inl ⟨es₁, e', es₂, s₁, (List.append_inj' heq rfl).1, hrun₁, hzero, hends⟩
  · rintro (⟨es₁, e', es₂, s₁, rfl, hrun₁, hzero, hends⟩ | ⟨hzero, hends⟩)
    · exact ⟨es₁, e', es₂ ++ [e], s₁, by simp, hrun₁, hzero, hends⟩
    · exact ⟨es, e, [], s, rfl, hrun, hzero, hends⟩

/-- What the server knows of the signals so far. -/
structure Answers (users : ℕ → ClientData) (fds : Finset ℕ) (s : ChatroomMultiprocess) (es : List Event) :
    Prop where
  run : Trace Step (start users fds) es s
  asked : .sigterm ∈ es ↔ s.terminate = true ∨ s.stopServer = true
  stops : s.stopServer = true ↔ Ends users fds es

lemma answers_start : Answers users fds (start users fds) [] :=
  ⟨.nil _, by simp [start], iff_of_false Bool.false_ne_true ends_nil⟩

/-- A step that leaves the two flags alone is about no signal. -/
lemma Answers.keep (h : Answers users fds s es) (hs : Step s e s') (ht : s'.terminate = s.terminate)
    (hstop : s'.stopServer = s.stopServer) (hne : e ≠ .sigterm) (hne' : e ≠ .sigchldDone) :
    Answers users fds s' (es ++ [e]) := by
  refine ⟨h.run.snoc hs, ?_, ?_⟩
  · rw [ht, hstop, ← h.asked]
    simp [Ne.symm hne]
  · rw [hstop, h.stops, ends_snoc h.run]
    simp [hne, hne']

lemma flags_handleExit (hs : s.handleExit c = some s') :
    s'.terminate = s.terminate ∧ s'.stopServer = s.stopServer := by
  rw [ChatroomMultiprocess.handleExit] at hs
  split at hs
  next =>
    cases hs
    exact ⟨rfl, rfl⟩
  next =>
    obtain ⟨n, -, -, rfl⟩ := removeUser_eq hs
    exact ⟨rfl, rfl⟩

lemma Step.answers (hs : Step s e s') (h : Answers users fds s es) : Answers users fds s' (es ++ [e]) := by
  cases hs with
  | accept hfresh haccept =>
    have hs := Step.accept hfresh haccept
    rcases accept_cases haccept with ⟨-, rfl⟩ | ⟨-, -, rfl⟩ | ⟨-, pid, -, -, rfl⟩
    all_goals exact h.keep hs rfl rfl (by simp) (by simp)
  | exit hlive hexit =>
    obtain ⟨ht, hstop⟩ := flags_handleExit hexit
    exact h.keep (.exit hlive hexit) ht hstop (by simp) (by simp)
  | sigchldDone =>
    have hstop : s.sigchldDone.stopServer = true ↔
        s.stopServer = true ∨ s.terminate = true ∧ s.userCount = 0 := by
      simp [ChatroomMultiprocess.sigchldDone]
    refine ⟨h.run.snoc .sigchldDone, ?_, ?_⟩
    · rw [hstop]
      have hasked := h.asked
      simp only [List.mem_append, List.mem_singleton, reduceCtorEq, or_false, hasked]
      show _ ↔ s.terminate = true ∨ _
      tauto
    · rw [hstop, ends_snoc h.run, h.asked, ← h.stops]
      simp only [reduceCtorEq, false_or, true_and]
      tauto
  | sigterm =>
    refine ⟨h.run.snoc .sigterm, ?_, ?_⟩
    · refine iff_of_true (by simp) ?_
      rw [ChatroomMultiprocess.sigterm]
      split
      next => exact .inr rfl
      next => exact .inl rfl
    · rw [ends_snoc h.run, ← h.stops, ChatroomMultiprocess.sigterm]
      split
      next hzero => simp [hzero]
      next hne => simp [hne]

/-- In every run, the server stops if and only if it has handled SIGTERM or SIGINT without a user, or behind
one of these SIGCHLD without a user. Whatever it sends SIGTERM to is a process id that stood in `users`
before the first user came. -/
theorem run_stops_iff (hrun : Trace Step (start users fds) es s) :
    (s.stopServer = true ↔ Ends users fds es) ∧ ∀ pid ∈ s.killed, ∃ j, pid = (users j).pid := by
  have h : Answers users fds s ([] ++ es) :=
    hrun.history (I := Answers users fds) (fun _ _ _ _ h hs => hs.answers h) answers_start
  exact ⟨h.stops, (hrun.invariant (fun _ _ _ h hs => hs.leftover h) leftover_start).killed⟩

/-- A user is there when SIGTERM comes, which is sent on to the 0 in `users`; the server stops when the
child of the user has exited. -/
theorem run_stops_one : ∃ s : ChatroomMultiprocess,
    Trace Step (start (fun _ => ⟨0, 0, 0, 0⟩) {0, 1, 2, 3, 4, 5, 6})
      [.accept 7 8 9 (some 100), .sigterm, .exit 0, .sigchldDone] s ∧
      s.killed = [0] ∧ (∀ pid ∈ s.killed, pid = 0) ∧
      Ends (fun _ => ⟨0, 0, 0, 0⟩) {0, 1, 2, 3, 4, 5, 6}
        [.accept 7 8 9 (some 100), .sigterm, .exit 0, .sigchldDone] := by
  have hrun : Trace Step (start (fun _ => ⟨0, 0, 0, 0⟩) {0, 1, 2, 3, 4, 5, 6})
      [.accept 7 8 9 (some 100), .sigterm, .exit 0, .sigchldDone] _ :=
    .cons (.accept ⟨rfl, rfl, rfl, by decide, by decide⟩ rfl)
      (.cons .sigterm (.cons (.exit rfl rfl) (.cons .sigchldDone (.nil _))))
  obtain ⟨hstops, hkilled⟩ := run_stops_iff hrun
  exact ⟨_, hrun, rfl, fun pid hpid => (hkilled pid hpid).elim fun _ hj => hj, hstops.mp rfl⟩

end LinuxServer.ChatroomMultiprocess
