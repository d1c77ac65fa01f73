import LinuxServer.ChatroomMultiprocess.Tables

/-!
# The pipes of the users

The parent has one descriptor for the pipe of each user, and no other one for it. So it is as long as an
exit makes it close the pipe of the child that has exited.
-/

namespace LinuxServer.ChatroomMultiprocess

open Core

variable {s s' : ChatroomMultiprocess} {c connfd p₀ p₁ : ℕ} {pid : ℤ}

structure Wired (s : ChatroomMultiprocess) : Prop where
  counted : s.Counted
  isOpen : ∀ i < s.userCount, ∃ c, s.fds (s.users i).pipefd₀ = some (.pipe c)
  injective : ∀ i < s.userCount, ∀ j < s.userCount, (s.users i).pipefd₀ = (s.users j).pipefd₀ → i = j
  one : ∀ fd fd' c, s.fds fd = some (.pipe c) → s.fds fd' = some (.pipe c) → fd = fd'
  born : ∀ fd c, s.fds fd = some (.pipe c) → c < s.born

/-- The child `c` is that of a user. -/
def Listed (s : ChatroomMultiprocess) (c : ℕ) : Prop :=
  ∃ i < s.userCount, s.fds (s.users i).pipefd₀ = some (.pipe c)

lemma wired_start {users : ℕ → ClientData} {fds : Finset ℕ} : (start users fds).Wired := by
  have hother : ∀ fd c, (start users fds).fds fd ≠ some (.pipe c) := by
    intro fd c
    rw [start]
    dsimp only
    split <;> simp
  refine ⟨counted_start, ?_, ?_, ?_, ?_⟩
  · intro i hi
    cases hi
  · intro i hi
    cases hi
  · intro fd fd' c hfd
    exact absurd hfd (hother fd c)
  · intro fd c hfd
    exact absurd hfd (hother fd c)

/-! ### A new user -/

lemma Wired.ne_of_fresh (h : s.Wired) {i fd : ℕ} (hi : i < s.userCount) (hfd : s.fds fd = none) :
    (s.users i).pipefd₀ ≠ fd := by
  obtain ⟨c, hpipe⟩ := h.isOpen i hi
  rintro rfl
  rw [hfd] at hpipe
  cases hpipe

/-- What a failing `fork` leaves behind is no pipe of a child. -/
lemma fds_prepare_pipe (h₀ : s.fds p₀ = none) (h₁ : s.fds p₁ = none) {fd : ℕ} :
    (s.prepare connfd p₀ p₁).fds fd = some (.pipe c) ↔ s.fds fd = some (.pipe c) := by
  by_cases hne₁ : fd = p₁
  · subst hne₁
    have hother : (s.prepare connfd p₀ fd).fds fd = some .other := Function.update_self _ _ _
    rw [hother, h₁]
    simp
  · by_cases hne₀ : fd = p₀
    · subst hne₀
      have hother : (s.prepare connfd fd p₁).fds fd = some .other :=
        (Function.update_of_ne hne₁ _ _).trans (Function.update_self _ _ _)
      rw [hother, h₀]
      simp
    · rw [fds_prepare hne₀ hne₁]

lemma Wired.prepare (h : s.Wired) (h₀ : s.fds p₀ = none) (h₁ : s.fds p₁ = none) :
    (s.prepare connfd p₀ p₁).Wired := by
  refine ⟨h.counted.prepare, ?_, ?_, ?_, ?_⟩
  · intro i hi
    obtain ⟨c, hpipe⟩ := h.isOpen i hi
    refine ⟨c, ?_⟩
    rw [users_prepare (s := s) hi, fds_prepare_pipe h₀ h₁]
    exact hpipe
  · intro i hi j hj heq
    rw [users_prepare (s := s) hi, users_prepare (s := s) hj] at heq
    exact h.injective i hi j hj heq
  · intro fd fd' c hfd hfd'
    rw [fds_prepare_pipe h₀ h₁] at hfd hfd'
    exact h.one fd fd' c hfd hfd'
  · intro fd c hfd
    rw [fds_prepare_pipe h₀ h₁] at hfd
    exact h.born fd c hfd

lemma listed_prepare (h₀ : s.fds p₀ = none) (h₁ : s.fds p₁ = none) (hc : s.Listed c) :
    (s.prepare connfd p₀ p₁).Listed c := by
  obtain ⟨i, hi, hpipe⟩ := hc
  refine ⟨i, hi, ?_⟩
  rw [users_prepare hi, fds_prepare_pipe h₀ h₁]
  exact hpipe

lemma Admitted.fds_pipe {t : ChatroomMultiprocess} (ht : Admitted s p₀ pid t) {fd : ℕ}
    (hfd : s.fds fd = some (.pipe c)) : t.fds fd = some (.pipe c) :=
  (ht.fds fd (by rw [hfd]; exact Option.some_ne_none _)).trans hfd

lemma Admitted.wired {t : ChatroomMultiprocess} (ht : Admitted s p₀ pid t) (h : s.Wired)
    (hcounted : t.Counted) (hborn : t.born = s.born + 1) (h₀ : s.fds p₀ = none) : t.Wired := by
  refine ⟨hcounted, ?_, ht.injective (fun i hi => h.ne_of_fresh hi h₀) h.injective, ?_, ?_⟩
  · intro i hi
    rcases ht.entry_cases hi with ⟨hlt, hsame⟩ | rfl
    · obtain ⟨c, hpipe⟩ := h.isOpen i hlt
      refine ⟨c, ?_⟩
      rw [hsame]
      exact ht.fds_pipe hpipe
    · refine ⟨s.born, ?_⟩
      rw [ht.entry.1]
      exact ht.pipe
  · intro fd fd' c hfd hfd'
    rcases ht.pipes fd c hfd with ⟨rfl, rfl⟩ | hold <;>
      rcases ht.pipes fd' _ hfd' with ⟨rfl, hc⟩ | hold'
    · rfl
    · exact absurd (h.born fd' _ hold') (lt_irrefl _)
    · subst hc
      exact absurd (h.born fd _ hold) (lt_irrefl _)
    · exact h.one fd fd' c hold hold'
  · intro fd c hfd
    rw [hborn]
    rcases ht.pipes fd c hfd with ⟨-, rfl⟩ | hold
    · exact Nat.lt_succ_self _
    · exact Nat.lt_succ_of_lt (h.born fd c hold)

lemma Admitted.listed {t : ChatroomMultiprocess} (ht : Admitted s p₀ pid t) (hc : s.Listed c ∨ c = s.born) :
    t.Listed c := by
  rcases hc with ⟨i, hi, hpipe⟩ | rfl
  · refine ⟨i, ht.userCount ▸ Nat.lt_succ_of_lt hi, ?_⟩
    rw [ht.users i hi]
    exact ht.fds_pipe hpipe
  · refine ⟨s.userCount, ht.userCount ▸ Nat.lt_succ_self _, ?_⟩
    rw [ht.entry.1]
    exact ht.pipe

/-! ### An exit is handled -/

/-- Only the pipe that is closed is gone. -/
lemma Left.fds_pipe {j n : ℕ} {t : ChatroomMultiprocess} (ht : Left s c j n t) {fd c' : ℕ} :
    t.fds fd = some (.pipe c') ↔ fd ≠ (s.users j).pipefd₀ ∧ s.fds fd = some (.pipe c') := by
  rw [ht.fds]
  by_cases hfd : fd = (s.users j).pipefd₀
  · rw [hfd, Function.update_self]
    simp
  · rw [Function.update_of_ne hfd]
    exact ⟨fun h => ⟨hfd, h⟩, fun h => h.2⟩

lemma Left.wired {j n : ℕ} {t : ChatroomMultiprocess} (ht : Left s c j n t) (h : s.Wired)
    (hcounted : t.Counted) (hj : j < s.userCount) : t.Wired := by
  refine ⟨hcounted, ?_, ?_, ?_, ?_⟩
  · intro i hi
    obtain ⟨k, hk, hkj, heq, -⟩ := ht.entry hj hi
    obtain ⟨c', hpipe⟩ := h.isOpen k hk
    refine ⟨c', ?_⟩
    rw [ht.fds_pipe, heq]
    exact ⟨fun hsame => hkj (h.injective k hk j hj hsame), hpipe⟩
  · intro i hi i' hi' heq
    obtain ⟨k, hk, -, hentry, hki⟩ := ht.entry hj hi
    obtain ⟨k', hk', -, hentry', hki'⟩ := ht.entry hj hi'
    rw [hentry, hentry'] at heq
    have hsame := h.injective k hk k' hk' heq
    rw [hki, hki'] at hsame
    exact ht.moved_injective hi hi' hsame
  · intro fd fd' c' hfd hfd'
    exact h.one fd fd' c' (ht.fds_pipe.mp hfd).2 (ht.fds_pipe.mp hfd').2
  · intro fd c' hfd
    rw [ht.born]
    exact h.born fd c' (ht.fds_pipe.mp hfd).2

/-- The other children stay in the table. -/
lemma Left.listed {j n : ℕ} {t : ChatroomMultiprocess} (ht : Left s c j n t) (hj : j < s.userCount)
    {c' : ℕ} (hpipe : s.fds (s.users j).pipefd₀ = some (.pipe c)) (hne : c' ≠ c) (hc' : s.Listed c') :
    t.Listed c' := by
  obtain ⟨k, hk, hpipe'⟩ := hc'
  have hfd : (s.users k).pipefd₀ ≠ (s.users j).pipefd₀ := by
    intro heq
    rw [heq, hpipe] at hpipe'
    cases hpipe'
    exact hne rfl
  have hkj : k ≠ j := by
    rintro rfl
    exact hfd rfl
  rcases Nat.lt_succ_iff_lt_or_eq.mp (hk.trans_eq ht.last) with hlt | rfl
  · refine ⟨k, ht.userCount ▸ hlt, ?_⟩
    rw [ht.fds_pipe, ht.users, Function.update_of_ne hkj]
    exact ⟨hfd, hpipe'⟩
  · refine ⟨j, ?_, ?_⟩
    · have hlast := ht.last
      rw [ht.userCount]
      omega
    · rw [ht.fds_pipe, ht.users, Function.update_self]
      exact ⟨hfd, hpipe'⟩

end LinuxServer.ChatroomMultiprocess
