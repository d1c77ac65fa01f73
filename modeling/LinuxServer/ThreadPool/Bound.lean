import LinuxServer.ThreadPool.Basic

/-!
# The bound of the queue

`append` compares the size of the queue with `m_max_request` before it pushes, and refuses when the
size is greater: so the queue gets one request more than `m_max_request`, and `append` refuses when it
holds that many.
-/

namespace LinuxServer.ThreadPool

open Core

variable {W A T : Type*} {s s' : ThreadPool W A T} {e : Event W A T} {a : A} {request : Option T}

/-- `append` is not called when the queue holds exactly `m_max_request` requests. -/
def OffLimit (s : ThreadPool W A T) : Event W A T → Prop
  | .append _ _ => s.workqueue.length ≠ s.maxRequest
  | _ => True

variable [DecidableEq A]

/-- No more than `m_max_request` requests are queued, and `append` refuses, and changes nothing, exactly
when so many are queued already. -/
structure Bounded (s : ThreadPool W A T) (e : Event W A T) (s' : ThreadPool W A T) : Prop where
  length_le : s'.workqueue.length ≤ s'.maxRequest
  refuses : ∀ a request, e = .append a request →
    ((s.append a request).1 = false ↔ s.workqueue.length = s.maxRequest)
  unchanged : ∀ a request, e = .append a request → (s.append a request).1 = false →
    s'.workqueue = s.workqueue ∧ s'.queuestat = s.queuestat

/-! ### What `append` does -/

lemma append_full (h : s.maxRequest < s.workqueue.length) : s.append a request = (false, s) := if_pos h

lemma append_fst_eq_false_iff : (s.append a request).1 = false ↔ s.maxRequest < s.workqueue.length := by
  rw [append]
  split
  next h => exact iff_of_true rfl h
  next h => exact iff_of_false Bool.noConfusion h

lemma workqueue_append (h : s.workqueue.length ≤ s.maxRequest) :
    (s.append a request).2.workqueue = s.workqueue ++ [request] := by
  rw [append, if_neg (not_lt.mpr h)]

lemma maxRequest_append : (s.append a request).2.maxRequest = s.maxRequest := by
  rw [append]
  split
  next => rfl
  next => rfl

variable [DecidableEq W]

omit [DecidableEq A] in
lemma pop_le {w : W} : (s.pop w).workqueue.length ≤ s.workqueue.length ∧
    (s.pop w).maxRequest = s.maxRequest := by
  rw [pop]
  split
  next => exact ⟨le_rfl, rfl⟩
  next request rest hcons =>
    refine ⟨?_, rfl⟩
    rw [hcons]
    exact Nat.le_succ _

/-- Only an append makes the queue longer. -/
lemma Step.length_le (hs : Step s e s') (he : ∀ a request, e ≠ .append a request) :
    s'.workqueue.length ≤ s.workqueue.length ∧ s'.maxRequest = s.maxRequest := by
  cases hs with
  | append => exact absurd rfl (he _ _)
  | post => exact ⟨le_rfl, rfl⟩
  | wait => exact ⟨le_rfl, rfl⟩
  | interrupt => exact ⟨le_rfl, rfl⟩
  | pop => exact pop_le
  | done => exact ⟨le_rfl, rfl⟩

/-! ### Runs -/

/-- The bound that the queue does have. -/
lemma Step.length_le_succ (hs : Step s e s') (h : s.workqueue.length ≤ s.maxRequest + 1) :
    s'.workqueue.length ≤ s'.maxRequest + 1 := by
  by_cases he : ∃ a request, e = .append a request
  · obtain ⟨a, request, rfl⟩ := he
    cases hs with
    | append _ =>
      rw [maxRequest_append]
      by_cases hfull : s.maxRequest < s.workqueue.length
      · rw [append_full hfull]
        exact h
      · rw [workqueue_append (not_lt.mp hfull), List.length_append]
        exact Nat.succ_le_succ (not_lt.mp hfull)
  · have hle := hs.length_le fun a request heq => he ⟨a, request, heq⟩
    rw [hle.2]
    exact hle.1.trans h

/-- In every run at most `m_max_request + 1` requests are queued, and `append` refuses exactly when so
many are. -/
theorem run_refuses {maxRequest : ℕ} {es : List (Event W A T)}
    (hrun : Trace Step (init maxRequest) es s) :
    s.workqueue.length ≤ s.maxRequest + 1 ∧
      ((s.append a request).1 = false ↔ s.workqueue.length = s.maxRequest + 1) := by
  have h : s.workqueue.length ≤ s.maxRequest + 1 :=
    hrun.invariant (I := fun s => s.workqueue.length ≤ s.maxRequest + 1)
      (fun _ _ _ h hs => hs.length_le_succ h) (Nat.zero_le _)
  refine ⟨h, ?_⟩
  rw [append_fst_eq_false_iff]
  constructor
  · intro hfull
    exact le_antisymm h hfull
  · intro heq
    rw [heq]
    exact Nat.lt_succ_self _

/-- Within the bound exactly the calls of `append` at the limit go wrong. -/
lemma Step.bounded_iff (hs : Step s e s') (h : s.workqueue.length ≤ s.maxRequest) :
    (Bounded s e s' ↔ s.OffLimit e) ∧ (s.OffLimit e → s'.workqueue.length ≤ s'.maxRequest) := by
  by_cases he : ∃ a request, e = .append a request
  · obtain ⟨a, request, rfl⟩ := he
    cases hs with
    | append ha =>
      have hlength : (s.append a request).2.workqueue.length = s.workqueue.length + 1 := by
        rw [workqueue_append h, List.length_append, List.length_singleton]
      have hkeep : s.workqueue.length ≠ s.maxRequest →
          (s.append a request).2.workqueue.length ≤ (s.append a request).2.maxRequest := by
        intro hne
        rw [hlength, maxRequest_append]
        exact lt_of_le_of_ne h hne
      have htaken : (s.append a request).1 ≠ false := by
        rw [Ne, append_fst_eq_false_iff]
        exact not_lt.mpr h
      refine ⟨⟨?_, ?_⟩, hkeep⟩
      · intro hb heq
        have hle := hb.length_le
        rw [hlength, maxRequest_append, heq] at hle
        exact Nat.not_succ_le_self _ hle
      · intro hne
        refine ⟨hkeep hne, ?_, ?_⟩
        · intro a' request' heq
          cases heq
          exact iff_of_false htaken hne
        · intro a' request' heq hfalse
          cases heq
          exact absurd hfalse htaken
  · have hother : ∀ a request, e ≠ .append a request := fun a request heq => he ⟨a, request, heq⟩
    obtain ⟨hle, hmax⟩ := hs.length_le hother
    have hkeep : s'.workqueue.length ≤ s'.maxRequest := by
      rw [hmax]
      exact hle.trans h
    have hoff : s.OffLimit e := by
      cases e with
      | append a request => exact absurd rfl (hother a request)
      | _ => trivial
    refine ⟨iff_of_true ⟨hkeep, ?_, ?_⟩ hoff, fun _ => hkeep⟩
    · intro a request heq
      exact absurd heq (hother a request)
    · intro a request heq
      exact absurd heq (hother a request)

/-- In a run the queue keeps to its bound, and `append` refuses when it is reached, if and only if
`append` is never called when it is reached. -/
theorem run_bounded_iff {maxRequest : ℕ} {es : List (Event W A T)} :
    Trace (fun s e s' => Step s e s' ∧ Bounded s e s') (init maxRequest) es s ↔
      Trace (fun s e s' => Step s e s' ∧ s.OffLimit e) (init maxRequest) es s :=
  Trace.guard_iff (I := fun s => s.workqueue.length ≤ s.maxRequest) (fun _ _ _ h hs => hs.bounded_iff h)
    (Nat.zero_le _)

/-- With room for one request, a second one is taken in. -/
theorem run_notBounded : ∃ s s' : ThreadPool (Fin 1) (Fin 2) ℕ,
    Trace Step (init 1) [.append 0 (some 7)] s ∧ s.workqueue.length = s.maxRequest ∧
      Step s (.append 1 (some 8)) s' ∧ (s.append 1 (some 8)).1 = true ∧ s'.workqueue.length = 2 ∧
      ¬ Bounded s (.append 1 (some 8)) s' := by
  have hrun : Trace Step (init 1 : ThreadPool (Fin 1) (Fin 2) ℕ) [.append 0 (some 7)] _ :=
    .cons (.append rfl) (.nil _)
  refine ⟨_, _, hrun, rfl, .append rfl, rfl, rfl, ?_⟩
  intro h
  exact absurd h.length_le (by decide)

end LinuxServer.ThreadPool
