import LinuxServer.ChatroomMultiprocess.Basic

/-!
# The segments of the children

A child is forked with `user_count` as its index, which stays with it; `user_count` is what was admitted
less what has exited. So a newcomer gets the index of a child that is still there when, since that
one was forked, one exit more was handled than users were admitted.
-/

namespace LinuxServer.ChatroomMultiprocess

open Core

variable {s s' : ChatroomMultiprocess} {c : ℕ}

/-- No two children write to one segment. -/
def Distinct (s : ChatroomMultiprocess) : Prop :=
  ∀ c c', (s.child c).live = true → (s.child c').live = true → (s.child c).idx = (s.child c').idx → c = c'

/-- The users that were admitted since the child `c` was forked. -/
def admittedSince (s : ChatroomMultiprocess) (c : ℕ) : ℕ := s.born - (c + 1)

/-- The exits that were handled since then. -/
def exitsSince (s : ChatroomMultiprocess) (c : ℕ) : ℕ := s.reaped - (s.child c).reapedBefore

/-- A user is not admitted when, since a running child was forked, one exit more was handled than
users were admitted. -/
def Apart (s : ChatroomMultiprocess) : Event → Prop
  | .accept _ _ _ (some _) => s.userCount ≤ userLimit →
      ∀ c, (s.child c).live = true → s.exitsSince c ≠ s.admittedSince c + 1
  | _ => True

/-! ### What is counted -/

structure Counted (s : ChatroomMultiprocess) : Prop where
  count : s.userCount + s.reaped = s.born
  idx : ∀ c, (s.child c).live = true → (s.child c).idx + (s.child c).reapedBefore = c
  born : ∀ c, (s.child c).live = true → c < s.born
  pid : ∀ c c', (s.child c).live = true → (s.child c').live = true →
    (s.child c).pid = (s.child c').pid → c = c'
  /-- The range test of SIGCHLD finds every child. -/
  known : ∀ c, (s.child c).live = true →
    0 ≤ s.subProcess (s.child c).pid ∧ s.subProcess (s.child c).pid ≤ userLimit

lemma counted_start {users : ℕ → ClientData} {fds : Finset ℕ} : (start users fds).Counted := by
  refine ⟨rfl, ?_, ?_, ?_, ?_⟩
  · intro c hc
    cases hc
  · intro c hc
    cases hc
  · intro c c' hc
    cases hc
  · intro c hc
    cases hc

lemma distinct_start {users : ℕ → ClientData} {fds : Finset ℕ} : (start users fds).Distinct := by
  intro c c' hc
  cases hc

/-- The numbers of a running child, against those of a newcomer. -/
lemma Counted.idx_eq_iff (h : s.Counted) (hc : (s.child c).live = true) :
    (s.child c).idx = s.userCount ↔ s.exitsSince c = s.admittedSince c + 1 := by
  have hcount := h.count
  have hidx := h.idx c hc
  have hborn := h.born c hc
  rw [exitsSince, admittedSince]
  omega

/-- A place of a user is written to `sub_process`. -/
lemma known_update {f : ℤ → ℤ} {p q i : ℤ} (hi : 0 ≤ i ∧ i ≤ userLimit) (hq : 0 ≤ f q ∧ f q ≤ userLimit) :
    0 ≤ Function.update f p i q ∧ Function.update f p i q ≤ userLimit := by
  rw [Function.update_apply]
  split
  next => exact hi
  next => exact hq

/-! ### A child is forked -/

variable {p₀ p₁ : ℕ} {pid : ℤ}

lemma child_enroll_self : (s.enroll p₀ p₁ pid).child s.born = ⟨pid, s.userCount, true, s.reaped⟩ :=
  Function.update_self _ _ _

lemma child_enroll_of_ne (hc : c ≠ s.born) : (s.enroll p₀ p₁ pid).child c = s.child c :=
  Function.update_of_ne hc _ _

/-- What is live behind an admission is the newcomer or was live. -/
lemma live_enroll (hc : ((s.enroll p₀ p₁ pid).child c).live = true) :
    c = s.born ∨ c ≠ s.born ∧ (s.child c).live = true := by
  by_cases hnew : c = s.born
  · exact .inl hnew
  · rw [child_enroll_of_ne hnew] at hc
    exact .inr ⟨hnew, hc⟩

lemma Counted.enroll (h : s.Counted) (hroom : s.userCount ≤ userLimit)
    (hpid : ∀ c, (s.child c).live = true → (s.child c).pid ≠ pid) : (s.enroll p₀ p₁ pid).Counted where
  count := by
    show s.userCount + 1 + s.reaped = s.born + 1
    rw [← h.count]
    omega
  idx c hc := by
    rcases live_enroll hc with rfl | ⟨hne, hold⟩
    · rw [child_enroll_self]
      exact h.count
    · rw [child_enroll_of_ne hne]
      exact h.idx c hold
  born c hc := by
    show c < s.born + 1
    rcases live_enroll hc with rfl | ⟨_, hold⟩
    · exact Nat.lt_succ_self _
    · exact Nat.lt_succ_of_lt (h.born c hold)
  pid c c' hc hc' heq := by
    rcases live_enroll hc with rfl | ⟨hne, hold⟩ <;> rcases live_enroll hc' with rfl | ⟨hne', hold'⟩
    · rfl
    · rw [child_enroll_self, child_enroll_of_ne hne'] at heq
      exact absurd heq.symm (hpid c' hold')
    · rw [child_enroll_self, child_enroll_of_ne hne] at heq
      exact absurd heq (hpid c hold)
    · rw [child_enroll_of_ne hne, child_enroll_of_ne hne'] at heq
      exact h.pid c c' hold hold' heq
  known c hc := by
    show 0 ≤ Function.update s.subProcess pid s.userCount _ ∧
      Function.update s.subProcess pid s.userCount _ ≤ userLimit
    rcases live_enroll hc with rfl | ⟨hne, hold⟩
    · rw [child_enroll_self, Function.update_self]
      omega
    · rw [child_enroll_of_ne hne, Function.update_of_ne (hpid c hold)]
      exact h.known c hold

/-- The newcomer has a segment of its own if and only if no running child has its index. -/
lemma distinct_enroll_iff (h : s.Counted) (hd : s.Distinct) :
    (s.enroll p₀ p₁ pid).Distinct ↔ ∀ c, (s.child c).live = true → (s.child c).idx ≠ s.userCount := by
  constructor
  · intro hd' c hc heq
    have hne : c ≠ s.born := (h.born c hc).ne
    have hlive : ((s.enroll p₀ p₁ pid).child c).live = true := by
      rw [child_enroll_of_ne hne]
      exact hc
    refine hne (hd' c s.born hlive ?_ ?_)
    · rw [child_enroll_self]
    · rw [child_enroll_self, child_enroll_of_ne hne]
      exact heq
  · intro hother c c' hc hc' heq
    rcases live_enroll hc with rfl | ⟨hne, hold⟩ <;> rcases live_enroll hc' with rfl | ⟨hne', hold'⟩
    · rfl
    · rw [child_enroll_self, child_enroll_of_ne hne'] at heq
      exact absurd heq.symm (hother c' hold')
    · rw [child_enroll_self, child_enroll_of_ne hne] at heq
      exact absurd heq (hother c hold)
    · rw [child_enroll_of_ne hne, child_enroll_of_ne hne'] at heq
      exact hd c c' hold hold' heq

/-! ### An exit is handled -/

/-- What the loop body does for a child that `sub_process` knows. -/
lemma handleExit_of_known (hle : 0 ≤ s.subProcess (s.child c).pid)
    (hlt : s.subProcess (s.child c).pid ≤ userLimit) :
    s.handleExit c = ((s.reap c).setSubProcess (s.child c).pid (-1)).removeUser
      (s.subProcess (s.child c).pid).toNat := by
  have hknown : ¬ (s.subProcess (s.child c).pid < 0 ∨ (userLimit : ℤ) < s.subProcess (s.child c).pid) := by
    omega
  exact if_neg hknown

/-- What `removeUser` does, when it does something. -/
lemma removeUser_eq {i : ℕ} (h : s.removeUser i = some s') :
    ∃ n, s.userCount = n + 1 ∧ IsPid (s.users n).pid ∧
      s' = (s.moveLast i n).setSubProcess (s.users n).pid i := by
  rw [removeUser] at h
  split at h
  next => cases h
  next n hn =>
    split at h
    next hpid =>
      cases h
      exact ⟨n, hn, hpid, rfl⟩
    next => cases h

/-- The same children are running, but for `c`. -/
lemma live_reap {c' : ℕ} (hc : ((s.reap c).child c').live = true) :
    c' ≠ c ∧ (s.child c').live = true ∧ (s.reap c).child c' = s.child c' := by
  have hne : c' ≠ c := by
    rintro rfl
    have hself : (s.reap c').child c' = { s.child c' with live := false } := Function.update_self _ _ _
    rw [hself] at hc
    cases hc
  have hsame : (s.reap c).child c' = s.child c' := Function.update_of_ne hne _ _
  rw [hsame] at hc
  exact ⟨hne, hc, hsame⟩

lemma idx_reap {c' : ℕ} : ((s.reap c).child c').idx = (s.child c').idx := by
  by_cases hc' : c' = c
  · subst hc'
    have hself : (s.reap c').child c' = { s.child c' with live := false } := Function.update_self _ _ _
    rw [hself]
  · have hother : (s.reap c).child c' = s.child c' := Function.update_of_ne hc' _ _
    rw [hother]

/-- Of the children only `c` is touched, and it keeps its index. -/
lemma idx_handleExit {c' : ℕ} (hs : s.handleExit c = some s') : (s'.child c').idx = (s.child c').idx := by
  rw [ChatroomMultiprocess.handleExit] at hs
  split at hs
  next =>
    cases hs
    exact idx_reap
  next =>
    obtain ⟨n, -, -, rfl⟩ := removeUser_eq hs
    exact idx_reap

lemma Counted.handleExit (h : s.Counted) (hc : (s.child c).live = true)
    (hs : s.handleExit c = some s') : s'.Counted ∧ s'.child = (s.reap c).child := by
  obtain ⟨hle, hlt⟩ := h.known c hc
  rw [handleExit_of_known hle hlt] at hs
  obtain ⟨n, hn, -, rfl⟩ := removeUser_eq hs
  refine ⟨⟨?_, ?_, ?_, ?_, ?_⟩, rfl⟩
  · show n + (s.reaped + 1) = s.born
    have hcount := h.count
    have hn' : s.userCount = n + 1 := hn
    omega
  · intro c' hc'
    obtain ⟨-, hlive, hsame⟩ := live_reap hc'
    show ((s.reap c).child c').idx + ((s.reap c).child c').reapedBefore = c'
    rw [hsame]
    exact h.idx c' hlive
  · intro c' hc'
    exact h.born c' (live_reap hc').2.1
  · intro c₁ c₂ h₁ h₂ heq
    obtain ⟨-, hlive₁, hsame₁⟩ := live_reap h₁
    obtain ⟨-, hlive₂, hsame₂⟩ := live_reap h₂
    have heq' : ((s.reap c).child c₁).pid = ((s.reap c).child c₂).pid := heq
    rw [hsame₁, hsame₂] at heq'
    exact h.pid c₁ c₂ hlive₁ hlive₂ heq'
  · intro c' hc'
    obtain ⟨hne, hlive, hsame⟩ := live_reap hc'
    have hpid : (s.child c').pid ≠ (s.child c).pid := fun heq => hne (h.pid c' c hlive hc heq)
    show 0 ≤ Function.update (Function.update s.subProcess (s.child c).pid (-1)) (s.users n).pid
        (s.subProcess (s.child c).pid).toNat ((s.reap c).child c').pid ∧
      Function.update (Function.update s.subProcess (s.child c).pid (-1)) (s.users n).pid
        (s.subProcess (s.child c).pid).toNat ((s.reap c).child c').pid ≤ userLimit
    rw [hsame]
    apply known_update (by omega)
    rw [Function.update_of_ne hpid]
    exact h.known c' hlive

/-! ### Runs -/

/-- Nothing of the children is changed. -/
lemma Counted.congr (h : s.Counted) (hcount : s'.userCount = s.userCount) (hreaped : s'.reaped = s.reaped)
    (hborn : s'.born = s.born) (hchild : s'.child = s.child) (hsub : s'.subProcess = s.subProcess) :
    s'.Counted := by
  refine ⟨?_, ?_, ?_, ?_, ?_⟩
  · rw [hcount, hreaped, hborn]
    exact h.count
  · rw [hchild]
    exact h.idx
  · rw [hchild, hborn]
    exact h.born
  · rw [hchild]
    exact h.pid
  · rw [hchild, hsub]
    exact h.known

lemma distinct_congr (hchild : s'.child = s.child) : s'.Distinct ↔ s.Distinct := by
  rw [Distinct, Distinct, hchild]

/-- What `accept` does: it refuses, `fork` fails, or a child is forked. -/
lemma accept_cases {connfd : ℕ} {fork : Option ℤ} (h : s.accept connfd p₀ p₁ fork = some s') :
    userLimit < s.userCount ∧ s' = s ∨
      s.userCount ≤ userLimit ∧ fork = none ∧ s' = s.prepare connfd p₀ p₁ ∨
      s.userCount ≤ userLimit ∧ ∃ pid, fork = some pid ∧ IsPid pid ∧
        s' = (s.prepare connfd p₀ p₁).enroll p₀ p₁ pid := by
  rw [accept.eq_def] at h
  split at h
  next hfull =>
    cases h
    exact .inl ⟨hfull, rfl⟩
  next hroom =>
    right
    split at h
    next =>
      cases h
      exact .inl ⟨not_lt.mp hroom, rfl, rfl⟩
    next pid =>
      split at h
      next hpid =>
        cases h
        exact .inr ⟨not_lt.mp hroom, pid, rfl, hpid, rfl⟩
      next => cases h

lemma Counted.prepare {connfd : ℕ} (h : s.Counted) : (s.prepare connfd p₀ p₁).Counted :=
  h.congr rfl rfl rfl rfl rfl

/-- What is counted is counted in every run. -/
lemma Step.counted {e : Event} (hs : Step s e s') (h : s.Counted) : s'.Counted := by
  cases hs with
  | accept hfresh haccept =>
    rcases accept_cases haccept with ⟨-, rfl⟩ | ⟨-, -, rfl⟩ | ⟨hroom, pid, rfl, -, rfl⟩
    · exact h
    · exact h.prepare
    · refine h.prepare.enroll hroom fun c hc heq => ?_
      exact hfresh.pid c (h.born c hc) hc (congrArg some heq.symm)
  | exit hlive hexit => exact (h.handleExit hlive hexit).1
  | sigchldDone => exact h.congr rfl rfl rfl rfl rfl
  | sigterm =>
    rw [ChatroomMultiprocess.sigterm]
    split
    next => exact h.congr rfl rfl rfl rfl rfl
    next => exact h.congr rfl rfl rfl rfl rfl

/-- Exactly the steps that keep the children apart keep the segments distinct. -/
lemma Step.distinct {e : Event} (hs : Step s e s') (h : s.Counted) (hd : s.Distinct) :
    s'.Distinct ↔ s.Apart e := by
  cases hs with
  | @accept _ connfd p₀ p₁ fork hfresh haccept =>
    rcases accept_cases haccept with ⟨hfull, rfl⟩ | ⟨-, rfl, rfl⟩ | ⟨hroom, pid, rfl, -, rfl⟩
    · apply iff_of_true hd
      cases fork with
      | none => trivial
      | some pid => exact fun hroom => absurd hfull (not_lt.mpr hroom)
    · exact iff_of_true ((distinct_congr rfl).mpr hd) trivial
    · rw [distinct_enroll_iff h.prepare ((distinct_congr rfl).mpr hd)]
      constructor
      · intro hother _ c hc heq
        exact hother c hc ((h.idx_eq_iff hc).mpr heq)
      · intro hapart c hc heq
        exact hapart hroom c hc ((h.idx_eq_iff hc).mp heq)
  | exit hlive hexit =>
    refine iff_of_true ?_ trivial
    intro c₁ c₂ h₁ h₂ heq
    rw [(h.handleExit hlive hexit).2] at h₁ h₂ heq
    obtain ⟨-, hlive₁, hsame₁⟩ := live_reap h₁
    obtain ⟨-, hlive₂, hsame₂⟩ := live_reap h₂
    rw [hsame₁, hsame₂] at heq
    exact hd c₁ c₂ hlive₁ hlive₂ heq
  | sigchldDone => exact iff_of_true hd trivial
  | sigterm =>
    refine iff_of_true ?_ trivial
    rw [ChatroomMultiprocess.sigterm]
    split
    next => exact hd
    next => exact hd

/-- In a run the segments are distinct in every state if and only if every step keeps the children
apart. -/
theorem run_distinct_iff {users : ℕ → ClientData} {fds : Finset ℕ} {es : List Event} :
    Trace (fun s e s' => Step s e s' ∧ s'.Distinct) (start users fds) es s ↔
      Trace (fun s e s' => Step s e s' ∧ s.Apart e) (start users fds) es s := by
  refine Trace.guard_iff (I := fun s => s.Counted ∧ s.Distinct) ?_ ⟨counted_start, distinct_start⟩
  rintro s e s' ⟨h, hd⟩ hs
  have hiff := hs.distinct h hd
  exact ⟨hiff, fun hapart => ⟨hs.counted h, hiff.mpr hapart⟩⟩

/-- The users 0 and 1 are admitted, 0 leaves, and the next one gets the index of 1. -/
theorem run_notDistinct : ∃ s : ChatroomMultiprocess,
    Trace Step (start (fun _ => ⟨0, 0, 0, 0⟩) {0, 1, 2, 3, 4, 5, 6})
      [.accept 7 8 9 (some 100), .accept 7 9 10 (some 101), .exit 0, .sigchldDone,
        .accept 7 8 10 (some 102)] s ∧
      (s.child 1).live = true ∧ (s.child 2).live = true ∧ (s.child 1).idx = (s.child 2).idx ∧
      ¬ s.Distinct := by
  have hrun : Trace Step (start (fun _ => ⟨0, 0, 0, 0⟩) {0, 1, 2, 3, 4, 5, 6})
      [.accept 7 8 9 (some 100), .accept 7 9 10 (some 101), .exit 0, .sigchldDone,
        .accept 7 8 10 (some 102)] _ :=
    .cons (.accept ⟨rfl, rfl, rfl, by decide, by decide⟩ rfl)
      (.cons (.accept ⟨rfl, rfl, rfl, by decide, by decide⟩ rfl)
      (.cons (.exit rfl rfl) (.cons .sigchldDone
      (.cons (.accept ⟨rfl, rfl, rfl, by decide, by decide⟩ rfl) (.nil _)))))
  refine ⟨_, hrun, rfl, rfl, rfl, ?_⟩
  intro hd
  cases hd 1 2 rfl rfl rfl

end LinuxServer.ChatroomMultiprocess
