import LinuxServer.ChatroomMultiprocess.Tables

/-!
# The descriptors of the parent

A new user costs the parent a socket, a pipe and a process; it gives back the socket and one end of
the pipe when the child runs, and the other end when the child has exited. When `fork` fails it gives
back the socket only. And an exit closes the pipe of the entry that `sub_process` names, whoever has
moved there or from there.
-/

namespace LinuxServer.ChatroomMultiprocess

open Core

variable {s s' : ChatroomMultiprocess} {fds : Finset ℕ} {connfd p₀ p₁ c j n : ℕ}
  {pid : ℤ} {fork : Option ℤ}

/-! ### A new user, call by call -/

def openFd (s : ChatroomMultiprocess) (fd : ℕ) : ChatroomMultiprocess :=
  { s with fds := Function.update s.fds fd (some .other) }

/-- `close(fd)` -/
def closeFd (s : ChatroomMultiprocess) (fd : ℕ) : ChatroomMultiprocess :=
  { s with fds := Function.update s.fds fd none }

/-- `addfd(epollfd, fd)` of the parent's end of a pipe, which is that of the next child. -/
def addFd (s : ChatroomMultiprocess) (fd : ℕ) : ChatroomMultiprocess :=
  { s with fds := Function.update s.fds fd (some (.pipe s.born)) }

/-- `users[user_count].connfd = connfd` -/
def setConnfd (s : ChatroomMultiprocess) (connfd : ℕ) : ChatroomMultiprocess :=
  { s with
    users := Function.update s.users s.userCount { s.users s.userCount with connfd := connfd } }

/-- `socketpair(PF_UNIX, SOCK_STREAM, 0, users[user_count].pipefd)` -/
def socketpair (s : ChatroomMultiprocess) (p₀ p₁ : ℕ) : ChatroomMultiprocess :=
  { (s.openFd p₀).openFd p₁ with
    users := Function.update s.users s.userCount
      { s.users s.userCount with pipefd₀ := p₀, pipefd₁ := p₁ } }

/-- `sub_process[pid] = user_count`, and `++user_count`, with the child that was forked. -/
def count (s : ChatroomMultiprocess) (pid : ℤ) : ChatroomMultiprocess :=
  { s with
    subProcess := Function.update s.subProcess pid s.userCount
    userCount := s.userCount + 1
    child := Function.update s.child s.born ⟨pid, s.userCount, true, s.reaped⟩
    born := s.born + 1 }

/-- The branch of a new user, with what it opens and closes in order. -/
def newUser (s : ChatroomMultiprocess) (connfd p₀ p₁ : ℕ) (fork : Option ℤ) :
    Option ChatroomMultiprocess :=
  let s := s.openFd connfd
  if userLimit < s.userCount then
    some (s.closeFd connfd)
  else
    let s := (s.setConnfd connfd).socketpair p₀ p₁
    match fork with
    | none => some (s.closeFd connfd)
    | some pid =>
      if IsPid pid then
        some ((((s.closeFd connfd).closeFd p₁).addFd p₀).count pid)
      else
        none

/-- A descriptor that is opened and closed again leaves no trace. -/
lemma close_open (hconn : s.fds connfd = none) : (s.openFd connfd).closeFd connfd = s := by
  show { s with fds := Function.update (Function.update s.fds connfd (some .other)) connfd none } = s
  rw [Function.update_idem, ← hconn, Function.update_eq_self]

/-- The socket is closed again behind `socketpair`. -/
lemma close_socketpair (hconn : s.fds connfd = none) (hne₀ : connfd ≠ p₀) (hne₁ : connfd ≠ p₁) :
    (((s.openFd connfd).setConnfd connfd).socketpair p₀ p₁).closeFd connfd =
      s.prepare connfd p₀ p₁ := by
  have hfds : Function.update (Function.update (Function.update (Function.update s.fds
      connfd (some .other)) p₀ (some .other)) p₁ (some .other)) connfd none =
        Function.update (Function.update s.fds p₀ (some .other)) p₁ (some .other) := by
    rw [Function.update_comm hne₁.symm, Function.update_comm hne₀.symm, Function.update_idem,
      ← hconn, Function.update_eq_self]
  simp only [closeFd, socketpair, setConnfd, openFd, prepare, hfds, Function.update_idem,
    Function.update_self]

/-- Call by call the branch does what `accept` says. -/
theorem newUser_eq_accept (hfresh : s.Fresh connfd p₀ p₁ fork) :
    s.newUser connfd p₀ p₁ fork = s.accept connfd p₀ p₁ fork := by
  obtain ⟨-, hne₀, hne₁⟩ := hfresh.ne
  have hpair := close_socketpair hfresh.conn hne₀ hne₁
  rw [newUser, accept.eq_def]
  dsimp only
  rw [hpair, close_open hfresh.conn]
  rfl

/-! ### What is open -/

/-- The descriptors of `fds` are open, one for each user, and no other ones. -/
structure Accounted (fds : Finset ℕ) (s : ChatroomMultiprocess) : Prop where
  isOpen : ∀ fd, s.fds fd ≠ none ↔ fd ∈ fds ∨ ∃ i < s.userCount, (s.users i).pipefd₀ = fd
  apart : ∀ i < s.userCount, (s.users i).pipefd₀ ∉ fds
  injective : ∀ i < s.userCount, ∀ j < s.userCount,
    (s.users i).pipefd₀ = (s.users j).pipefd₀ → i = j

/-- What an event is to leave: a user that is refused, or that has no child, leaves all as it was. -/
structure Restores (fds : Finset ℕ) (s : ChatroomMultiprocess) (e : Event)
    (s' : ChatroomMultiprocess) : Prop where
  accounted : s'.Accounted fds
  unchanged : ∀ connfd p₀ p₁ fork,
    e = .accept connfd p₀ p₁ fork → userLimit < s.userCount ∨ fork = none →
    s'.fds = s.fds ∧ (∀ i < s.userCount, s'.users i = s.users i) ∧ s'.subProcess = s.subProcess ∧
      s'.userCount = s.userCount

/-- `fork` does not fail, and the entry that an exit is handled for is that of a user, or it has the
pipe of the last user. -/
def Releases (s : ChatroomMultiprocess) : Event → Prop
  | .accept _ _ _ none => userLimit < s.userCount
  | .exit c => (s.subProcess (s.child c).pid).toNat < s.userCount ∨
    (s.users (s.subProcess (s.child c).pid).toNat).pipefd₀ = (s.users (s.userCount - 1)).pipefd₀
  | _ => True

lemma accounted_start {users : ℕ → ClientData} : (start users fds).Accounted fds := by
  refine ⟨?_, ?_, ?_⟩
  · intro fd
    have hnone : ¬ ∃ i < (start users fds).userCount, ((start users fds).users i).pipefd₀ = fd := by
      rintro ⟨i, hi, -⟩
      cases hi
    rw [or_iff_left hnone, start]
    dsimp only
    split
    next hmem => exact iff_of_true (Option.some_ne_none _) hmem
    next hmem => exact iff_of_false (not_not.mpr rfl) hmem
  · intro i hi
    cases hi
  · intro i hi
    cases hi

lemma Accounted.congr (h : s.Accounted fds) (hfds : s'.fds = s.fds)
    (hcount : s'.userCount = s.userCount) (husers : s'.users = s.users) : s'.Accounted fds := by
  obtain ⟨hopen, hapart, hinj⟩ := h
  rw [← hfds, ← hcount, ← husers] at hopen
  rw [← hcount, ← husers] at hapart hinj
  exact ⟨hopen, hapart, hinj⟩

/-- An event that is not a new user is to leave the descriptors accounted for. -/
lemma Accounted.restores {e : Event} (h : s'.Accounted fds)
    (he : ∀ connfd p₀ p₁ fork, e ≠ .accept connfd p₀ p₁ fork) : Restores fds s e s' where
  accounted := h
  unchanged connfd p₀ p₁ fork heq := absurd heq (he connfd p₀ p₁ fork)

/-- A descriptor that is given out is none of those that are open. -/
lemma Accounted.of_none (h : s.Accounted fds) {fd : ℕ} (hfd : s.fds fd = none) :
    fd ∉ fds ∧ ∀ i < s.userCount, (s.users i).pipefd₀ ≠ fd := by
  have hnot := mt (h.isOpen fd).mpr (not_not.mpr hfd)
  exact ⟨fun hmem => hnot (.inl hmem), fun i hi heq => hnot (.inr ⟨i, hi, heq⟩)⟩

/-! ### A new user -/

/-- The pipe of a user without a child stays open. -/
lemma Accounted.not_prepare (h : s.Accounted fds) (h₀ : s.fds p₀ = none) :
    ¬ (s.prepare connfd p₀ p₁).Accounted fds := by
  intro h'
  obtain ⟨hmem, hother⟩ := h.of_none h₀
  have hopen : (s.prepare connfd p₀ p₁).fds p₀ ≠ none := by
    have heq : (s.prepare connfd p₀ p₁).fds p₀ =
        Function.update (Function.update s.fds p₀ (some .other)) p₁ (some .other) p₀ := rfl
    rw [heq, Function.update_apply]
    split
    · exact Option.some_ne_none _
    · rw [Function.update_self]
      exact Option.some_ne_none _
  rcases (h'.isOpen p₀).mp hopen with hfixed | ⟨i, hi, heq⟩
  · exact hmem hfixed
  · rw [users_prepare (s := s) hi] at heq
    exact hother i hi heq

lemma fds_enroll_ne_none (h₁ : s.fds p₁ = none) {fd : ℕ} :
    ((s.prepare connfd p₀ p₁).enroll p₀ p₁ pid).fds fd ≠ none ↔ fd = p₀ ∨ s.fds fd ≠ none := by
  have heq : ((s.prepare connfd p₀ p₁).enroll p₀ p₁ pid).fds fd =
      Function.update (Function.update (s.prepare connfd p₀ p₁).fds p₁ none) p₀
        (some (.pipe s.born)) fd := rfl
  by_cases hfd₀ : fd = p₀
  · rw [heq, hfd₀, Function.update_self]
    exact iff_of_true (Option.some_ne_none _) (.inl rfl)
  · rw [heq, Function.update_of_ne hfd₀, or_iff_right hfd₀]
    by_cases hfd₁ : fd = p₁
    · rw [hfd₁, Function.update_self, h₁]
    · rw [Function.update_of_ne hfd₁, fds_prepare hfd₀ hfd₁]

/-- With a child, the one descriptor that stays open is that of its user. -/
lemma Accounted.enroll (h : s.Accounted fds) (h₀ : s.fds p₀ = none) (h₁ : s.fds p₁ = none) :
    ((s.prepare connfd p₀ p₁).enroll p₀ p₁ pid).Accounted fds := by
  set t := (s.prepare connfd p₀ p₁).enroll p₀ p₁ pid with ht
  have hadmitted : Admitted s p₀ pid t := admitted h₀ h₁
  obtain ⟨hmem, hother⟩ := h.of_none h₀
  refine ⟨?_, ?_, hadmitted.injective hother h.injective⟩
  · intro fd
    rw [ht, fds_enroll_ne_none h₁, h.isOpen, ← ht]
    constructor
    · rintro (rfl | hfixed | ⟨i, hi, heq⟩)
      · exact .inr ⟨s.userCount, Nat.lt_succ_self _, hadmitted.entry.1⟩
      · exact .inl hfixed
      · refine .inr ⟨i, Nat.lt_succ_of_lt hi, ?_⟩
        rw [hadmitted.users i hi]
        exact heq
    · rintro (hfixed | ⟨i, hi, heq⟩)
      · exact .inr (.inl hfixed)
      · rcases hadmitted.entry_cases hi with ⟨hlt, hsame⟩ | rfl
        · rw [hsame] at heq
          exact .inr (.inr ⟨i, hlt, heq⟩)
        · exact .inl (heq.symm.trans hadmitted.entry.1)
  · intro i hi
    rcases hadmitted.entry_cases hi with ⟨hlt, hsame⟩ | rfl
    · rw [hsame]
      exact h.apart i hlt
    · rw [hadmitted.entry.1]
      exact hmem

/-! ### An exit is handled -/

/-- Of the entries of `s` that of `k` is gone, with its pipe; the entry `i` of `t` is that of
`f i`. -/
structure Drops (s : ChatroomMultiprocess) (k : ℕ) (f : ℕ → ℕ) (t : ChatroomMultiprocess) :
    Prop where
  lt : k < s.userCount
  fds : t.fds = Function.update s.fds (s.users k).pipefd₀ none
  users : ∀ i < t.userCount, t.users i = s.users (f i)
  maps : ∀ i < t.userCount, f i < s.userCount ∧ f i ≠ k
  injective : ∀ i < t.userCount, ∀ j < t.userCount, f i = f j → i = j
  onto : ∀ i < s.userCount, i ≠ k → ∃ j < t.userCount, f j = i

lemma Accounted.drops {k : ℕ} {f : ℕ → ℕ} {t : ChatroomMultiprocess} (h : s.Accounted fds)
    (hd : Drops s k f t) : t.Accounted fds := by
  refine ⟨?_, ?_, ?_⟩
  · intro fd
    rw [hd.fds]
    by_cases hfd : fd = (s.users k).pipefd₀
    · rw [hfd, Function.update_self]
      refine iff_of_false (not_not.mpr rfl) ?_
      rintro (hfixed | ⟨i, hi, heq⟩)
      · exact h.apart k hd.lt hfixed
      · rw [hd.users i hi] at heq
        exact (hd.maps i hi).2 (h.injective _ (hd.maps i hi).1 k hd.lt heq)
    · rw [Function.update_of_ne hfd, h.isOpen]
      refine or_congr_right ⟨?_, ?_⟩
      · rintro ⟨i, hi, heq⟩
        obtain ⟨j, hj, rfl⟩ := hd.onto i hi fun hik => hfd (heq.symm.trans (by rw [hik]))
        exact ⟨j, hj, by rw [hd.users j hj, heq]⟩
      · rintro ⟨i, hi, heq⟩
        rw [hd.users i hi] at heq
        exact ⟨f i, (hd.maps i hi).1, heq⟩
  · intro i hi
    rw [hd.users i hi]
    exact h.apart _ (hd.maps i hi).1
  · intro i hi j hj heq
    rw [hd.users i hi, hd.users j hj] at heq
    exact hd.injective i hi j hj (h.injective _ (hd.maps i hi).1 _ (hd.maps j hj).1 heq)

/-- The entry of a user is removed, and the last one takes its place. -/
lemma Left.drops {t : ChatroomMultiprocess} (ht : Left s c j n t) (hj : j < s.userCount) :
    Drops s j (fun i => if i = j then n else i) t where
  lt := hj
  fds := ht.fds
  users i hi := by
    obtain ⟨k, -, -, heq, rfl⟩ := ht.entry hj hi
    exact heq
  maps i hi := by
    obtain ⟨k, hk, hkj, -, rfl⟩ := ht.entry hj hi
    exact ⟨hk, hkj⟩
  injective _ hi _ hi' heq := ht.moved_injective hi hi' heq
  onto i hi hij := by
    have hlast := ht.last
    rw [ht.userCount]
    by_cases hin : i = n
    · exact ⟨j, by omega, by rw [if_pos rfl, hin]⟩
    · exact ⟨i, by omega, if_neg hij⟩

/-- An entry behind the last user with the pipe of the last user is removed. -/
lemma Left.drops_last {t : ChatroomMultiprocess} (ht : Left s c j n t) (hj : s.userCount ≤ j)
    (hpipe : (s.users j).pipefd₀ = (s.users n).pipefd₀) : Drops s n id t where
  lt := ht.last ▸ Nat.lt_succ_self n
  fds := by rw [ht.fds, hpipe]
  users i hi := by
    rw [ht.userCount] at hi
    have hlast := ht.last
    rw [ht.users, Function.update_of_ne (by omega)]
    rfl
  maps i hi := by
    rw [ht.userCount] at hi
    have hlast := ht.last
    exact ⟨by show i < _; omega, hi.ne⟩
  injective _ _ _ _ heq := heq
  onto i hi hin := by
    have hlast := ht.last
    exact ⟨i, by rw [ht.userCount]; omega, rfl⟩

/-- Behind another entry the pipe of the last user stays open, and its user is gone. -/
lemma Left.not_accounted {t : ChatroomMultiprocess} (ht : Left s c j n t) (h : s.Accounted fds)
    (hj : s.userCount ≤ j) (hpipe : (s.users j).pipefd₀ ≠ (s.users n).pipefd₀) :
    ¬ t.Accounted fds := by
  intro h'
  have hlast := ht.last
  have hn : n < s.userCount := hlast ▸ Nat.lt_succ_self n
  have hopen : t.fds (s.users n).pipefd₀ ≠ none := by
    rw [ht.fds, Function.update_of_ne hpipe.symm]
    exact (h.isOpen _).mpr (.inr ⟨n, hn, rfl⟩)
  rcases (h'.isOpen _).mp hopen with hfixed | ⟨i, hi, heq⟩
  · exact h.apart n hn hfixed
  · rw [ht.userCount] at hi
    rw [ht.users, Function.update_of_ne (by omega)] at heq
    exact hi.ne (h.injective i (hi.trans hn) n hn heq)

/-! ### Runs -/

/-- Exactly the steps that release what they are to release leave what they are to leave. -/
lemma Step.restores {e : Event} (hs : Step s e s') (hcounted : s.Counted) (h : s.Accounted fds) :
    Restores fds s e s' ↔ s.Releases e := by
  cases hs with
  | @accept _ connfd p₀ p₁ fork hfresh haccept =>
    rcases accept_cases haccept with ⟨hfull, rfl⟩ | ⟨hroom, rfl, rfl⟩ | ⟨hroom, pid, rfl, -, rfl⟩
    · refine iff_of_true ⟨h, fun _ _ _ _ _ _ => ⟨rfl, fun _ _ => rfl, rfl, rfl⟩⟩ ?_
      cases fork with
      | none => exact hfull
      | some pid => trivial
    · exact iff_of_false (fun hr => h.not_prepare hfresh.pipe₀ hr.accounted) (not_lt.mpr hroom)
    · refine iff_of_true ⟨h.enroll hfresh.pipe₀ hfresh.pipe₁, ?_⟩ trivial
      rintro _ _ _ _ ⟨⟩ (hfull | hfail)
      · exact absurd hfull (not_lt.mpr hroom)
      · cases hfail
  | @exit _ c hlive hexit =>
    obtain ⟨hle, -⟩ := hcounted.known c hlive
    obtain ⟨n, -, hleft⟩ := hcounted.left hlive (Int.toNat_of_nonneg hle).symm hexit
    have hlast : s.userCount - 1 = n := by rw [hleft.last, Nat.add_sub_cancel]
    rw [Releases, hlast]
    by_cases hj : (s.subProcess (s.child c).pid).toNat < s.userCount
    · exact iff_of_true ((h.drops (hleft.drops hj)).restores (by simp)) (.inl hj)
    · rw [or_iff_right hj]
      constructor
      · intro hr
        by_contra hpipe
        exact hleft.not_accounted h (not_lt.mp hj) hpipe hr.accounted
      · intro hpipe
        exact (h.drops (hleft.drops_last (not_lt.mp hj) hpipe)).restores (by simp)
  | sigchldDone =>
    have hdone : s.sigchldDone.Accounted fds := h.congr rfl rfl rfl
    exact iff_of_true (hdone.restores (by simp)) trivial
  | sigterm =>
    have hterm : s.sigterm.Accounted fds := by
      rw [ChatroomMultiprocess.sigterm]
      split
      next => exact h.congr rfl rfl rfl
      next => exact h.congr rfl rfl rfl
    exact iff_of_true (hterm.restores (by simp)) trivial

/-- In a run of the parent what is open is accounted for behind every event, and what is refused or
fails leaves no trace, if and only if every step releases what it is to release. -/
theorem run_restores_iff {users : ℕ → ClientData} {es : List Event} :
    Trace (fun s e s' => Step s e s' ∧ Restores fds s e s') (start users fds) es s ↔
      Trace (fun s e s' => Step s e s' ∧ s.Releases e) (start users fds) es s := by
  refine Trace.guard_iff (I := fun s => s.Counted ∧ s.Accounted fds) ?_
    ⟨counted_start, accounted_start⟩
  rintro s e s' ⟨hcounted, h⟩ hs
  have hiff := hs.restores hcounted h
  exact ⟨hiff, fun hok => ⟨hs.counted hcounted, (hiff.mpr hok).accounted⟩⟩

/-- `fork` fails for the first user: its pipe stays open. -/
theorem run_notRestores : ∃ s : ChatroomMultiprocess,
    Trace Step (start (fun _ => ⟨0, 0, 0, 0⟩) {0, 1, 2, 3, 4, 5, 6}) [.accept 7 8 9 none] s ∧
      s.userCount = 0 ∧ s.fds 8 ≠ none ∧ s.fds 9 ≠ none ∧ ¬ s.Accounted {0, 1, 2, 3, 4, 5, 6} ∧
      ¬ Restores {0, 1, 2, 3, 4, 5, 6} (start (fun _ => ⟨0, 0, 0, 0⟩) {0, 1, 2, 3, 4, 5, 6})
        (.accept 7 8 9 none) s := by
  have hnot : ¬ ((start (fun _ => ⟨0, 0, 0, 0⟩) {0, 1, 2, 3, 4, 5, 6}).prepare 7 8 9).Accounted
      {0, 1, 2, 3, 4, 5, 6} := accounted_start.not_prepare rfl
  refine ⟨_, .cons (.accept ⟨rfl, rfl, rfl, by decide, by decide⟩ rfl) (.nil _), rfl, ?_, ?_, hnot,
    fun hr => hnot hr.accounted⟩
  · exact Option.some_ne_none _
  · exact Option.some_ne_none _

end LinuxServer.ChatroomMultiprocess
