import LinuxServer.ChatroomMultiprocess.Segments

/-!
# `users` and `sub_process`

No line of the source assigns `users[i].pid`. So the tables are inverse to each other only as long as the
entry of a new user happens to hold the pid of its child. And when the last entry of `users` is removed,
it is moved to its own place, and `sub_process` gets an entry for the process that has exited.
-/

namespace LinuxServer.ChatroomMultiprocess

open Core

variable {s s' : ChatroomMultiprocess} {c connfd p₀ p₁ : ℕ} {pid : ℤ}

structure Inverse (s : ChatroomMultiprocess) : Prop where
  /-- The user `i` has the pid of the child at the other end of its pipe. -/
  users : ∀ i < s.userCount, ∃ c, (s.child c).live = true ∧
    s.fds (s.users i).pipefd₀ = some (.pipe c) ∧ (s.users i).pid = (s.child c).pid
  place : ∀ i < s.userCount, s.subProcess (s.users i).pid = i
  other : ∀ p, IsPid p → (∀ i < s.userCount, (s.users i).pid ≠ p) → s.subProcess p = -1
  /-- SIGTERM is sent to the running children. -/
  pids : ∀ p, p ∈ s.pids ↔ ∃ c, (s.child c).live = true ∧ (s.child c).pid = p

/-- The entry of a new user holds the pid of its child from before, and the child that has exited is not
that of the last entry. -/
def Matched (s : ChatroomMultiprocess) : Event → Prop
  | .accept _ _ _ (some pid) => s.userCount ≤ userLimit → (s.users s.userCount).pid = pid
  | .exit c => s.subProcess (s.child c).pid + 1 ≠ s.userCount
  | _ => True

/-! ### The entries -/

lemma mem_pids {p : ℤ} : p ∈ s.pids ↔ ∃ i < s.userCount, (s.users i).pid = p := by
  rw [pids, mem_segment, Nat.zero_add]
  simp only [Nat.zero_le, true_and]

lemma inverse_of (husers : ∀ i < s.userCount, ∃ c, (s.child c).live = true ∧
      s.fds (s.users i).pipefd₀ = some (.pipe c) ∧ (s.users i).pid = (s.child c).pid)
    (hplace : ∀ i < s.userCount, s.subProcess (s.users i).pid = i)
    (hother : ∀ p, IsPid p → (∀ i < s.userCount, (s.users i).pid ≠ p) → s.subProcess p = -1)
    (hall : ∀ c, (s.child c).live = true → ∃ i < s.userCount, (s.users i).pid = (s.child c).pid) :
    s.Inverse := by
  refine ⟨husers, hplace, hother, ?_⟩
  intro p
  rw [mem_pids]
  constructor
  · rintro ⟨i, hi, rfl⟩
    obtain ⟨c, hc, -, hpid⟩ := husers i hi
    exact ⟨c, hc, hpid.symm⟩
  · rintro ⟨c, hc, rfl⟩
    exact hall c hc

lemma inverse_start {users : ℕ → ClientData} {fds : Finset ℕ} : (start users fds).Inverse := by
  refine inverse_of ?_ ?_ (fun _ _ _ => rfl) ?_
  · intro i hi
    cases hi
  · intro i hi
    cases hi
  · intro c hc
    cases hc

/-- Every running child has an entry. -/
lemma Inverse.entry (h : s.Inverse) (hc : (s.child c).live = true) :
    ∃ i < s.userCount, (s.users i).pid = (s.child c).pid := by
  rw [← mem_pids]
  exact (h.pids _).mpr ⟨c, hc, rfl⟩

/-- No two entries have the same pid. -/
lemma Inverse.injective (h : s.Inverse) {i j : ℕ} (hi : i < s.userCount) (hj : j < s.userCount)
    (heq : (s.users i).pid = (s.users j).pid) : i = j := by
  have hplace := h.place i hi
  rw [heq, h.place j hj] at hplace
  exact_mod_cast hplace.symm

/-- What the tables say does not depend on what stands behind the last entry. -/
lemma Inverse.congr (h : s.Inverse) (hcount : s'.userCount = s.userCount)
    (husers : ∀ i < s.userCount, s'.users i = s.users i)
    (hfds : ∀ i < s.userCount, s'.fds (s.users i).pipefd₀ = s.fds (s.users i).pipefd₀)
    (hchild : s'.child = s.child) (hsub : s'.subProcess = s.subProcess) : s'.Inverse := by
  refine inverse_of ?_ ?_ ?_ ?_
  · intro i hi
    rw [hcount] at hi
    rw [husers i hi, hfds i hi, hchild]
    exact h.users i hi
  · intro i hi
    rw [hcount] at hi
    rw [husers i hi, hsub]
    exact h.place i hi
  · intro p hp hne
    rw [hsub]
    refine h.other p hp fun i hi => ?_
    rw [← husers i hi]
    exact hne i (hcount ▸ hi)
  · intro c hc
    rw [hchild] at hc ⊢
    obtain ⟨i, hi, hpid⟩ := h.entry hc
    refine ⟨i, hcount ▸ hi, ?_⟩
    rw [husers i hi]
    exact hpid

/-! ### A new user -/

/-- The pipes of the users are not given out again. -/
lemma Inverse.ne_of_fresh (h : s.Inverse) {i fd : ℕ} (hi : i < s.userCount) (hfd : s.fds fd = none) :
    (s.users i).pipefd₀ ≠ fd := by
  obtain ⟨c, -, hpipe, -⟩ := h.users i hi
  rintro rfl
  rw [hfd] at hpipe
  cases hpipe

lemma users_prepare {i : ℕ} (hi : i < s.userCount) : (s.prepare connfd p₀ p₁).users i = s.users i :=
  Function.update_of_ne hi.ne _ _

lemma fds_prepare {fd : ℕ} (h₀ : fd ≠ p₀) (h₁ : fd ≠ p₁) : (s.prepare connfd p₀ p₁).fds fd = s.fds fd :=
  (Function.update_of_ne h₁ _ _).trans (Function.update_of_ne h₀ _ _)

lemma Inverse.prepare (h : s.Inverse) (h₀ : s.fds p₀ = none) (h₁ : s.fds p₁ = none) :
    (s.prepare connfd p₀ p₁).Inverse :=
  h.congr rfl (fun _ hi => users_prepare hi)
    (fun _ hi => fds_prepare (h.ne_of_fresh hi h₀) (h.ne_of_fresh hi h₁)) rfl rfl

/-- What the admission of a user with the pipe `p₀` and the child `pid` does. -/
structure Admitted (s : ChatroomMultiprocess) (p₀ : ℕ) (pid : ℤ) (t : ChatroomMultiprocess) : Prop where
  userCount : t.userCount = s.userCount + 1
  users : ∀ i < s.userCount, t.users i = s.users i
  entry : (t.users s.userCount).pipefd₀ = p₀ ∧ (t.users s.userCount).pid = (s.users s.userCount).pid
  fds : ∀ fd, s.fds fd ≠ none → t.fds fd = s.fds fd
  pipe : t.fds p₀ = some (.pipe s.born)
  pipes : ∀ fd c, t.fds fd = some (.pipe c) → fd = p₀ ∧ c = s.born ∨ s.fds fd = some (.pipe c)
  child : ∀ c, c ≠ s.born → t.child c = s.child c
  born : (t.child s.born).live = true ∧ (t.child s.born).pid = pid
  subProcess : t.subProcess = Function.update s.subProcess pid s.userCount

lemma admitted (h₀ : s.fds p₀ = none) (h₁ : s.fds p₁ = none) :
    Admitted s p₀ pid ((s.prepare connfd p₀ p₁).enroll p₀ p₁ pid) := by
  have hentry : ((s.prepare connfd p₀ p₁).enroll p₀ p₁ pid).users s.userCount =
      { s.users s.userCount with connfd := connfd, pipefd₀ := p₀, pipefd₁ := p₁ } :=
    Function.update_self _ _ _
  have hborn : ((s.prepare connfd p₀ p₁).enroll p₀ p₁ pid).child s.born =
      ⟨pid, s.userCount, true, s.reaped⟩ := Function.update_self _ _ _
  refine ⟨rfl, fun _ hi => users_prepare hi, ?_, ?_, Function.update_self _ _ _, ?_,
    fun _ hc => Function.update_of_ne hc _ _, ?_, rfl⟩
  · rw [hentry]
    exact ⟨rfl, rfl⟩
  · intro fd hfd
    have hne₀ : fd ≠ p₀ := by
      rintro rfl
      exact hfd h₀
    have hne₁ : fd ≠ p₁ := by
      rintro rfl
      exact hfd h₁
    have hprepare : (s.prepare connfd p₀ p₁).fds fd = s.fds fd := fds_prepare hne₀ hne₁
    exact (Function.update_of_ne hne₀ _ _).trans ((Function.update_of_ne hne₁ _ _).trans hprepare)
  · intro fd c hfd
    have hfd' : Function.update (Function.update (s.prepare connfd p₀ p₁).fds p₁ none) p₀
        (some (.pipe s.born)) fd = some (.pipe c) := hfd
    by_cases hne₀ : fd = p₀
    · subst hne₀
      rw [Function.update_self] at hfd'
      cases hfd'
      exact .inl ⟨rfl, rfl⟩
    · rw [Function.update_of_ne hne₀] at hfd'
      by_cases hne₁ : fd = p₁
      · subst hne₁
        rw [Function.update_self] at hfd'
        cases hfd'
      · rw [Function.update_of_ne hne₁, fds_prepare hne₀ hne₁] at hfd'
        exact .inr hfd'
  · rw [hborn]
    exact ⟨rfl, rfl⟩

/-- An entry behind the admission is one from before, or that of the new user. -/
lemma Admitted.entry_cases {t : ChatroomMultiprocess} (ht : Admitted s p₀ pid t) {i : ℕ}
    (hi : i < t.userCount) : i < s.userCount ∧ t.users i = s.users i ∨ i = s.userCount := by
  rw [ht.userCount] at hi
  rcases Nat.lt_succ_iff_lt_or_eq.mp hi with hlt | heq
  · exact .inl ⟨hlt, ht.users i hlt⟩
  · exact .inr heq

/-- With a pipe that no user has, no two users have one pipe. -/
lemma Admitted.injective {t : ChatroomMultiprocess} (ht : Admitted s p₀ pid t)
    (hne : ∀ i < s.userCount, (s.users i).pipefd₀ ≠ p₀)
    (hinj : ∀ i < s.userCount, ∀ j < s.userCount,
      (s.users i).pipefd₀ = (s.users j).pipefd₀ → i = j) :
    ∀ i < t.userCount, ∀ j < t.userCount, (t.users i).pipefd₀ = (t.users j).pipefd₀ → i = j := by
  intro i hi j hj heq
  rcases ht.entry_cases hi with ⟨hi', hi⟩ | rfl
  · rcases ht.entry_cases hj with ⟨hj', hj⟩ | rfl
    · rw [hi, hj] at heq
      exact hinj i hi' j hj' heq
    · rw [hi, ht.entry.1] at heq
      exact absurd heq (hne i hi')
  · rcases ht.entry_cases hj with ⟨hj', hj⟩ | rfl
    · rw [hj, ht.entry.1] at heq
      exact absurd heq.symm (hne j hj')
    · rfl

/-- The tables stay inverse if and only if the entry holds the pid already. -/
lemma Admitted.inverse_iff {t : ChatroomMultiprocess} (ht : Admitted s p₀ pid t) (hcounted : s.Counted)
    (h : s.Inverse) (hpid : ∀ c, (s.child c).live = true → (s.child c).pid ≠ pid) :
    t.Inverse ↔ (s.users s.userCount).pid = pid := by
  have hold : ∀ c, (s.child c).live = true → t.child c = s.child c :=
    fun c hc => ht.child c (hcounted.born c hc).ne
  constructor
  · intro h'
    obtain ⟨c, -, hpipe, hentry⟩ := h'.users s.userCount (ht.userCount ▸ Nat.lt_succ_self _)
    rw [ht.entry.1, ht.pipe] at hpipe
    cases hpipe
    rw [ht.entry.2, ht.born.2] at hentry
    exact hentry
  · intro hmatch
    have hlast : (t.users s.userCount).pid = pid := ht.entry.2.trans hmatch
    refine inverse_of ?_ ?_ ?_ ?_
    · intro i hi
      rcases ht.entry_cases hi with ⟨hlt, hsame⟩ | rfl
      · obtain ⟨c, hc, hpipe, hentry⟩ := h.users i hlt
        refine ⟨c, ?_, ?_, ?_⟩
        · rw [hold c hc]
          exact hc
        · rw [hsame, ht.fds _ (by rw [hpipe]; exact Option.some_ne_none _)]
          exact hpipe
        · rw [hsame, hold c hc]
          exact hentry
      · refine ⟨s.born, ht.born.1, ?_, ?_⟩
        · rw [ht.entry.1]
          exact ht.pipe
        · rw [hlast, ht.born.2]
    · intro i hi
      rw [ht.subProcess]
      rcases ht.entry_cases hi with ⟨hlt, hsame⟩ | rfl
      · obtain ⟨c, hc, -, hentry⟩ := h.users i hlt
        rw [hsame, Function.update_of_ne]
        · exact h.place i hlt
        · rw [hentry]
          exact hpid c hc
      · rw [hlast, Function.update_self]
    · intro p hp hne
      have hnew := hne s.userCount (ht.userCount ▸ Nat.lt_succ_self _)
      rw [hlast] at hnew
      rw [ht.subProcess, Function.update_of_ne (Ne.symm hnew)]
      refine h.other p hp fun i hi => ?_
      rw [← ht.users i hi]
      exact hne i (ht.userCount ▸ Nat.lt_succ_of_lt hi)
    · intro c hc
      rw [ht.userCount]
      by_cases hnew : c = s.born
      · subst hnew
        exact ⟨s.userCount, Nat.lt_succ_self _, hlast.trans ht.born.2.symm⟩
      · rw [ht.child c hnew] at hc ⊢
        obtain ⟨i, hi, hentry⟩ := h.entry hc
        refine ⟨i, Nat.lt_succ_of_lt hi, ?_⟩
        rw [ht.users i hi]
        exact hentry

/-! ### An exit is handled -/

/-- What the loop body does for the child of the user `j`, with `n` as the last user. -/
structure Left (s : ChatroomMultiprocess) (c j n : ℕ) (t : ChatroomMultiprocess) : Prop where
  last : s.userCount = n + 1
  userCount : t.userCount = n
  users : t.users = Function.update s.users j (s.users n)
  fds : t.fds = Function.update s.fds (s.users j).pipefd₀ none
  child : t.child = (s.reap c).child
  born : t.born = s.born
  subProcess : t.subProcess =
    Function.update (Function.update s.subProcess (s.child c).pid (-1)) (s.users n).pid j

lemma Counted.left {j : ℕ} (hcounted : s.Counted) (hc : (s.child c).live = true)
    (hplace : s.subProcess (s.child c).pid = j) (hs : s.handleExit c = some s') :
    ∃ n, IsPid (s.users n).pid ∧ Left s c j n s' := by
  obtain ⟨hle, hlt⟩ := hcounted.known c hc
  rw [handleExit_of_known hle hlt, hplace, Int.toNat_natCast] at hs
  obtain ⟨n, hn, hisPid, rfl⟩ := removeUser_eq hs
  exact ⟨n, hisPid, ⟨hn, rfl, rfl, rfl, rfl, rfl, rfl⟩⟩

/-- When the last entry is removed, `sub_process` gets an entry for the process that has exited. -/
lemma Left.not_inverse {n : ℕ} {t : ChatroomMultiprocess} (ht : Left s c n n t) (h : s.Inverse)
    (hpid : IsPid (s.users n).pid) : ¬ t.Inverse := by
  intro h'
  have hlast : n < s.userCount := ht.last ▸ Nat.lt_succ_self n
  have hother := h'.other _ hpid fun i hi heq => ?_
  · rw [ht.subProcess, Function.update_self] at hother
    omega
  · rw [ht.userCount] at hi
    rw [ht.users, Function.update_of_ne hi.ne] at heq
    exact hi.ne (h.injective (hi.trans hlast) hlast heq)

/-- The entries behind the removal are the other entries from before. -/
lemma Left.entry {j n : ℕ} {t : ChatroomMultiprocess} (ht : Left s c j n t) (hj : j < s.userCount) {i : ℕ}
    (hi : i < t.userCount) :
    ∃ k < s.userCount, k ≠ j ∧ t.users i = s.users k ∧ k = if i = j then n else i := by
  have hlast := ht.last
  have hcount := ht.userCount
  rw [ht.users]
  by_cases hij : i = j
  · subst hij
    refine ⟨n, by omega, by omega, Function.update_self _ _ _, ?_⟩
    rw [if_pos rfl]
  · refine ⟨i, by omega, hij, Function.update_of_ne hij _ _, ?_⟩
    rw [if_neg hij]

/-- No two entries behind the removal come from one entry. -/
lemma Left.moved_injective {j n i i' : ℕ} {t : ChatroomMultiprocess} (ht : Left s c j n t)
    (hi : i < t.userCount) (hi' : i' < t.userCount)
    (heq : (if i = j then n else i) = if i' = j then n else i') : i = i' := by
  rw [ht.userCount] at hi hi'
  split at heq
  next hij =>
    split at heq
    next hij' => exact hij.trans hij'.symm
    next => exact absurd heq hi'.ne'
  next =>
    split at heq
    next => exact absurd heq hi.ne
    next => exact heq

/-- When it is another one, the tables stay inverse. -/
lemma Left.inverse {j n : ℕ} {t : ChatroomMultiprocess} (ht : Left s c j n t) (hcounted : s.Counted)
    (h : s.Inverse) (hc : (s.child c).live = true) (hj : j < n)
    (hpid : (s.users j).pid = (s.child c).pid) : t.Inverse := by
  have hj' : j < s.userCount := ht.last ▸ Nat.lt_succ_of_lt hj
  have hn : n < s.userCount := ht.last ▸ Nat.lt_succ_self n
  refine inverse_of ?_ ?_ ?_ ?_
  · intro i hi
    obtain ⟨k, hk, hkj, heq, -⟩ := ht.entry hj' hi
    obtain ⟨c', hc', hpipe, hentry⟩ := h.users k hk
    have hne : c' ≠ c := by
      rintro rfl
      exact hkj (h.injective hk hj' (hentry.trans hpid.symm))
    have hchild : t.child c' = s.child c' := by
      rw [ht.child]
      exact Function.update_of_ne hne _ _
    refine ⟨c', ?_, ?_, ?_⟩
    · rw [hchild]
      exact hc'
    · obtain ⟨c'', hc'', hpipe', hentry'⟩ := h.users j hj'
      rw [heq, ht.fds, Function.update_of_ne]
      · exact hpipe
      · intro hsame
        rw [hsame, hpipe'] at hpipe
        cases hpipe
        exact hne (hcounted.pid c' c hc' hc (hentry'.symm.trans hpid))
    · rw [heq, hchild]
      exact hentry
  · intro i hi
    obtain ⟨k, hk, hkj, heq, hik⟩ := ht.entry hj' hi
    have hother : (s.users k).pid ≠ (s.child c).pid := by
      rw [← hpid]
      exact fun heq' => hkj (h.injective hk hj' heq')
    rw [heq, ht.subProcess]
    split at hik
    next hij => rw [hik, hij, Function.update_self]
    next =>
      have hlt : k < n := by rwa [hik, ← ht.userCount]
      have hne : (s.users k).pid ≠ (s.users n).pid := fun heq' => hlt.ne (h.injective hk hn heq')
      rw [Function.update_of_ne hne, Function.update_of_ne hother, ← hik]
      exact h.place k hk
  · intro p hp hne
    have hlast : p ≠ (s.users n).pid := by
      have hmoved := hne j (ht.userCount ▸ hj)
      rw [ht.users, Function.update_self] at hmoved
      exact Ne.symm hmoved
    rw [ht.subProcess, Function.update_of_ne hlast]
    by_cases hexited : p = (s.child c).pid
    · rw [hexited, Function.update_self]
    · rw [Function.update_of_ne hexited]
      refine h.other p hp fun i hi heq => ?_
      by_cases hij : i = j
      · subst hij
        exact hexited (heq.symm.trans hpid)
      · rcases Nat.lt_succ_iff_lt_or_eq.mp (ht.last ▸ hi) with hlt | rfl
        · apply hne i (ht.userCount ▸ hlt)
          rw [ht.users, Function.update_of_ne hij]
          exact heq
        · exact hlast heq.symm
  · intro c' hc'
    rw [ht.child] at hc' ⊢
    obtain ⟨hne, hlive, hsame⟩ := live_reap hc'
    obtain ⟨k, hk, hentry⟩ := h.entry hlive
    rw [hsame, ht.userCount, ht.users]
    have hkj : k ≠ j := by
      rintro rfl
      exact hne (hcounted.pid c' c hlive hc (hentry.symm.trans hpid))
    rcases Nat.lt_succ_iff_lt_or_eq.mp (ht.last ▸ hk) with hlt | rfl
    · refine ⟨k, hlt, ?_⟩
      rw [Function.update_of_ne hkj]
      exact hentry
    · refine ⟨j, hj, ?_⟩
      rw [Function.update_self]
      exact hentry

/-! ### Runs -/

/-- Exactly the matched steps keep the tables inverse. -/
lemma Step.inverse {e : Event} (hs : Step s e s') (hcounted : s.Counted) (h : s.Inverse) :
    s'.Inverse ↔ s.Matched e := by
  cases hs with
  | @accept _ connfd p₀ p₁ fork hfresh haccept =>
    rcases accept_cases haccept with ⟨hfull, rfl⟩ | ⟨-, rfl, rfl⟩ | ⟨hroom, pid, rfl, -, rfl⟩
    · apply iff_of_true h
      cases fork with
      | none => trivial
      | some pid => exact fun hroom => absurd hfull (not_lt.mpr hroom)
    · exact iff_of_true (h.prepare hfresh.pipe₀ hfresh.pipe₁) trivial
    · have hpid : ∀ c, (s.child c).live = true → (s.child c).pid ≠ pid := fun c hc heq =>
        hfresh.pid c (hcounted.born c hc) hc (congrArg some heq.symm)
      rw [(admitted hfresh.pipe₀ hfresh.pipe₁).inverse_iff hcounted h hpid]
      exact ⟨fun hmatch _ => hmatch, fun hmatch => hmatch hroom⟩
  | @exit _ c hlive hexit =>
    obtain ⟨j, hj, hpid⟩ := h.entry hlive
    have hplace := h.place j hj
    rw [hpid] at hplace
    obtain ⟨n, hisPid, hleft⟩ := hcounted.left hlive hplace hexit
    rw [Matched, hplace, hleft.last]
    by_cases hjn : j = n
    · subst hjn
      exact iff_of_false (hleft.not_inverse h hisPid) fun hne => hne rfl
    · have hlt : j < n := lt_of_le_of_ne (Nat.le_of_lt_succ (hj.trans_eq hleft.last)) hjn
      apply iff_of_true (hleft.inverse hcounted h hlive hlt hpid)
      intro heq
      omega
  | sigchldDone => exact iff_of_true (h.congr rfl (fun _ _ => rfl) (fun _ _ => rfl) rfl rfl) trivial
  | sigterm =>
    refine iff_of_true ?_ trivial
    rw [ChatroomMultiprocess.sigterm]
    split
    next => exact h.congr rfl (fun _ _ => rfl) (fun _ _ => rfl) rfl rfl
    next => exact h.congr rfl (fun _ _ => rfl) (fun _ _ => rfl) rfl rfl

/-- In a run the tables are inverse in every state if and only if every step is matched. -/
theorem run_inverse_iff {users : ℕ → ClientData} {fds : Finset ℕ} {es : List Event} :
    Trace (fun s e s' => Step s e s' ∧ s'.Inverse) (start users fds) es s ↔
      Trace (fun s e s' => Step s e s' ∧ s.Matched e) (start users fds) es s := by
  refine Trace.guard_iff (I := fun s => s.Counted ∧ s.Inverse) ?_ ⟨counted_start, inverse_start⟩
  rintro s e s' ⟨hcounted, h⟩ hs
  have hiff := hs.inverse hcounted h
  exact ⟨hiff, fun hmatch => ⟨hs.counted hcounted, hiff.mpr hmatch⟩⟩

/-- The first user of a server whose `users` are 0: SIGTERM goes to the pid 0, not to the child. -/
theorem run_notInverse : ∃ s : ChatroomMultiprocess,
    Trace Step (start (fun _ => ⟨0, 0, 0, 0⟩) {0, 1, 2, 3, 4, 5, 6})
      [.accept 7 8 9 (some 100), .sigterm] s ∧
      (s.child 0).live = true ∧ (s.child 0).pid = 100 ∧ s.subProcess 100 = 0 ∧ s.killed = [0] ∧
      ¬ s.Inverse := by
  have hrun : Trace Step (start (fun _ => ⟨0, 0, 0, 0⟩) {0, 1, 2, 3, 4, 5, 6})
      [.accept 7 8 9 (some 100), .sigterm] _ :=
    .cons (.accept ⟨rfl, rfl, rfl, by decide, by decide⟩ rfl) (.cons .sigterm (.nil _))
  refine ⟨_, hrun, rfl, rfl, rfl, rfl, ?_⟩
  intro h
  obtain ⟨i, hi, hpid⟩ := h.entry (c := 0) rfl
  obtain rfl : i = 0 := Nat.lt_one_iff.mp hi
  cases hpid

end LinuxServer.ChatroomMultiprocess
