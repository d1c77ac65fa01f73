import LinuxServer.ProcessPool.Runs

/-!
# The round robin of the process pool

The search of `run_parent` is to find a worker that lives. It goes on as long as it sees workers that
live, and stops at one that is recorded dead, which makes the parent stop. So it does what it is to
do as long as all workers live, and when none does.
-/

namespace LinuxServer.ProcessPool

open Core

variable {n : ℕ} {s s' : ProcessPool n}

/-- The worker `i` is not recorded dead. -/
def Lives (s : ProcessPool n) (i : Fin n) : Prop := s.mPid i ≠ -1

/-- The worker `i` is recorded dead. -/
def die (s : ProcessPool n) (i : Fin n) : ProcessPool n :=
  { s with mPid := Function.update s.mPid i (-1) }

inductive ParentEvent (n : ℕ)
  | listen
  | die (i : Fin n)

/-- The first worker that lives, from `sub_process_counter` on in cyclic order. -/
structure IsNext (s : ProcessPool n) (i : Fin n) : Prop where
  lives : s.Lives i
  first : ∀ j, s.Lives j → i - s.subProcessCounter ≤ j - s.subProcessCounter

variable [NeZero n]

/-- An event on `m_listenfd`, or a death that is recorded. -/
inductive ParentStep : ProcessPool n → ParentEvent n → ProcessPool n → Prop
  | listen {s s' : ProcessPool n} : s.runParent = some s' → ParentStep s .listen s'
  | die {s : ProcessPool n} {i : Fin n} : ParentStep s (.die i) (s.die i)

/-- What the round robin is for: `new_conn` is sent to the next worker that lives, and the parent stops
only when there is none. -/
structure SendsNext (s s' : ProcessPool n) : Prop where
  next : (∃ i, s.Lives i) → ∃ i, s.IsNext i ∧ s' = s.send i
  none : (∀ i, ¬ s.Lives i) → s'.pipe = s.pipe
  mStop : s'.mStop = true → s.mStop = true ∨ ∀ i, ¬ s.Lives i

def Meets (s : ProcessPool n) (e : ParentEvent n) (s' : ProcessPool n) : Prop :=
  match e with
  | .listen => SendsNext s s'
  | .die _ => True

/-- No worker is recorded dead, or every worker is. -/
def Uniform (s : ProcessPool n) : ParentEvent n → Prop
  | .listen => (∀ i, s.Lives i) ∨ ∀ i, ¬ s.Lives i
  | .die _ => True

/-! ### The search -/

/-- The worker `k` places behind `sub_process_counter`. -/
def behind (s : ProcessPool n) (k : ℕ) : Fin n := s.subProcessCounter + Fin.ofNat n k

lemma behind_succ (s : ProcessPool n) (k : ℕ) : s.behind k + 1 = s.behind (k + 1) := by
  apply Fin.ext
  simp only [behind, Fin.val_add, Fin.val_one', Fin.val_ofNat, Nat.add_mod_mod, Nat.mod_add_mod]
  congr 1

lemma behind_zero (s : ProcessPool n) : s.behind 0 = s.subProcessCounter := by simp [behind]

lemma behind_sub (s : ProcessPool n) (i : Fin n) : s.behind (i - s.subProcessCounter).val = i := by
  rw [behind, Fin.ofNat_val_eq_self]
  exact add_sub_cancel _ _

/-- The search is behind the first places only when it has seen all of them live. -/
lemma behind_succ_ne {k : ℕ} (hk : k + 1 < n) : s.behind k + 1 ≠ s.subProcessCounter := by
  rw [behind_succ, behind]
  intro heq
  have hzero : Fin.ofNat n (k + 1) = 0 := by simpa using heq
  have hval := congrArg Fin.val hzero
  rw [Fin.val_ofNat, Nat.mod_eq_of_lt hk] at hval
  cases hval

/-- The search ends; if it ends at a worker that lives, all that it has seen live. -/
lemma roundRobinLoop_ends (s : ProcessPool n) : ∀ (fuel k : ℕ), 0 < fuel → k + fuel = n →
    ∃ j, s.roundRobinLoop fuel (s.behind k) = some j ∧
      (s.Lives j → ∀ k', k ≤ k' → k' < n → s.Lives (s.behind k'))
  | 0, _, hpos, _ => absurd hpos (lt_irrefl 0)
  | fuel + 1, k, _, hk => by
    rw [roundRobinLoop]
    split
    next hdead => exact ⟨_, rfl, fun hlives => absurd hdead hlives⟩
    next hlives =>
      rcases Nat.eq_zero_or_pos fuel with rfl | hpos
      · -- the last place
        have hlast : s.behind k + 1 = s.subProcessCounter := by
          rw [behind_succ, hk, behind, Fin.ofNat_self, add_zero]
        rw [hlast, if_neg (not_not.mpr rfl)]
        refine ⟨_, rfl, ?_⟩
        intro _ k' hle hlt
        obtain rfl : k' = k := by omega
        exact hlives
      · rw [if_pos (behind_succ_ne (by omega)), behind_succ]
        obtain ⟨j, hj, hall⟩ := roundRobinLoop_ends s fuel (k + 1) hpos (by omega)
        refine ⟨j, hj, ?_⟩
        intro hlivesj k' hle hlt
        rcases Nat.eq_or_lt_of_le hle with rfl | hlt'
        · exact hlives
        · exact hall hlivesj k' hlt' hlt

lemma roundRobin_ends (s : ProcessPool n) :
    ∃ j, s.roundRobin = some j ∧ (s.Lives j → ∀ i, s.Lives i) := by
  obtain ⟨j, hj, hall⟩ := roundRobinLoop_ends s n 0 (Nat.pos_of_ne_zero (NeZero.ne n)) (Nat.zero_add n)
  rw [behind_zero] at hj
  refine ⟨j, hj, ?_⟩
  intro hlives i
  rw [← behind_sub s i]
  exact hall hlives _ (Nat.zero_le _) (Fin.isLt _)

/-! ### Listen events -/

lemma isNext_of_all (h : ∀ i, s.Lives i) : s.IsNext s.subProcessCounter where
  lives := h _
  first j _ := by
    rw [sub_self]
    exact Fin.zero_le _

/-- With some workers dead and others not, the parent stops. -/
lemma runParent_mixed {i d : Fin n} (hi : s.Lives i) (hd : ¬ s.Lives d) (hs : s.runParent = some s') :
    ¬ SendsNext s s' := by
  obtain ⟨j, hj, hall⟩ := roundRobin_ends s
  have hdead : s.mPid j = -1 := by
    by_contra hlives
    exact hd (hall hlives d)
  rw [runParent, hj, Option.bind_eq_bind, Option.bind_some, if_pos hdead] at hs
  cases hs
  intro hmeets
  obtain ⟨k, -, hsend⟩ := hmeets.next ⟨i, hi⟩
  have hpipe : s.pipe k = (s.pipe k).arrive newConn := by
    have hself : (s.send k).pipe k = (s.pipe k).arrive newConn := Function.update_self _ _ _
    rw [← hself, ← hsend]
  have hlen := congrArg (fun c => c.items.length) hpipe
  simp [Descriptor.arrive] at hlen

lemma runParent_sendsNext (hs : s.runParent = some s') : SendsNext s s' ↔ s.Uniform .listen := by
  constructor
  · intro hmeets
    rw [Uniform, or_iff_not_imp_left]
    intro hall i hi
    obtain ⟨d, hd⟩ := not_forall.mp hall
    exact runParent_mixed hi hd hs hmeets
  · rintro (hall | hnone)
    · rw [runParent, roundRobin_eq hall, Option.bind_eq_bind, Option.bind_some, if_neg (hall _)] at hs
      cases hs
      refine ⟨fun _ => ⟨_, isNext_of_all hall, rfl⟩, fun hnone => ?_, .inl⟩
      exact absurd (hall s.subProcessCounter) (hnone _)
    · obtain ⟨j, hj, -⟩ := roundRobin_ends s
      rw [runParent, hj, Option.bind_eq_bind, Option.bind_some, if_pos (not_not.mp (hnone j))] at hs
      cases hs
      refine ⟨?_, fun _ => rfl, fun _ => .inr hnone⟩
      rintro ⟨i, hi⟩
      exact absurd hi (hnone i)

/-! ### Runs -/

/-- The search of every state ends; and in a run every listen event sends to the next worker that lives
if and only if each finds all workers alive or none. -/
theorem run_sendsNext_iff {es : List (ParentEvent n)} :
    (∀ s : ProcessPool n, s.roundRobin.isSome) ∧
      (Trace (fun s e s' => ParentStep s e s' ∧ s.Meets e s') s es s' ↔
        Trace (fun s e s' => ParentStep s e s' ∧ s.Uniform e) s es s') := by
  constructor
  · intro s
    obtain ⟨j, hj, -⟩ := roundRobin_ends s
    rw [hj]
    rfl
  · refine Trace.guard_iff (I := fun _ => True) ?_ trivial
    intro s e s' _ hs
    refine ⟨?_, fun _ => trivial⟩
    cases hs with
    | listen hrun => exact runParent_sendsNext hrun
    | die => exact iff_of_true trivial trivial

/-- Three workers that live: the first one gets the message. -/
theorem run_sendsNext_three :
    ∃ s : ProcessPool 3, s.mStop = false ∧ s.subProcessCounter = 1 ∧
      Trace (fun s e s' => ParentStep s e s' ∧ s.Meets e s') (init fun _ => 7) [.listen] s :=
  ⟨_, rfl, rfl, run_sendsNext_iff.2.mpr
    (.cons ⟨.listen rfl, .inl fun i => show (7 : ℤ) ≠ -1 by decide⟩ (.nil _))⟩

/-- Of two workers the first dies: the next listen event makes the parent stop. -/
theorem run_notSendsNext :
    ∃ s s' : ProcessPool 2, Trace ParentStep (init fun _ => 7) [.die 0] s ∧ ParentStep s .listen s' ∧
      s.Lives 1 ∧ s'.mStop = true ∧ s'.pipe = s.pipe ∧ ¬ s.Meets .listen s' := by
  refine ⟨_, _, .cons .die (.nil _), .listen rfl, ?_, rfl, rfl, ?_⟩
  · show Function.update (fun _ => (7 : ℤ)) (0 : Fin 2) (-1) 1 ≠ -1
    decide
  · intro h
    rcases h.mStop rfl with hstop | hnone
    · cases hstop
    · apply hnone 1
      show Function.update (fun _ => (7 : ℤ)) (0 : Fin 2) (-1) 1 ≠ -1
      decide

end LinuxServer.ProcessPool
