import LinuxServer.ThreadPool.Basic
import LinuxServer.Core.Places

/-!
# Runs of the thread pool

Every request that was taken in is in the queue or was taken out, in the order of `append`. For every
request in the queue there is something that will bring a worker to it: a count of the semaphore, a
worker that has left `wait()`, or a thread that has still to post.
-/

namespace LinuxServer.ThreadPool

open Core

variable {W A T : Type*} [Fintype W] [Fintype A] [DecidableEq T]

/-- The workers that have left `wait()` and not popped yet. -/
def popping (s : ThreadPool W A T) : ℕ := countAt (· = .pop) s.worker

/-- The threads that have pushed and not posted yet. -/
def posting (s : ThreadPool W A T) : ℕ := countAt (· = .post) s.appender

/-- What a pool keeps. -/
structure Covered (s : ThreadPool W A T) : Prop where
  fifo : s.popped ++ s.workqueue = s.accepted
  length_le : s.workqueue.length ≤ s.queuestat + s.popping + s.posting

lemma covered_init (maxRequest : ℕ) : (init maxRequest : ThreadPool W A T).Covered :=
  ⟨rfl, Nat.zero_le _⟩

section

variable [DecidableEq A] {s : ThreadPool W A T} {a : A} {request : Option T}

/-! ### A thread appends -/

lemma Covered.append (h : s.Covered) (ha : s.appender a = .idle) : (s.append a request).2.Covered := by
  rw [ThreadPool.append]
  split
  next => exact h
  next =>
    have hpost : countAt (· = .post) (Function.update s.appender a .post) = s.posting + 1 :=
      countAt_update_enter (by simp [ha]) rfl
    have hle := h.length_le
    constructor
    · show s.popped ++ (s.workqueue ++ [request]) = s.accepted ++ [request]
      rw [← List.append_assoc, h.fifo]
    · show (s.workqueue ++ [request]).length ≤
        s.queuestat + s.popping + countAt (· = .post) (Function.update s.appender a .post)
      rw [List.length_append, List.length_singleton, hpost]
      omega

lemma Covered.post (h : s.Covered) (ha : s.appender a = .post) : (s.post a).Covered := by
  have hpost : (s.post a).posting + 1 = s.posting := countAt_update_leave ha (by simp)
  have hle := h.length_le
  refine ⟨h.fifo, ?_⟩
  show s.workqueue.length ≤ s.queuestat + 1 + s.popping + (s.post a).posting
  omega

end

variable [DecidableEq W] {s s' : ThreadPool W A T} {w : W}

/-! ### A worker takes a request -/

omit [Fintype A] in
lemma popping_goto (hw : s.worker w = .wait) : (s.goto w .pop).popping = s.popping + 1 :=
  countAt_update_enter (by simp [hw]) rfl

lemma Covered.wait {n : ℕ} (h : s.Covered) (hw : s.worker w = .wait) (hn : s.queuestat = n + 1) :
    Covered { s.goto w .pop with queuestat := n } := by
  have hle := h.length_le
  have hpop := popping_goto hw
  refine ⟨h.fifo, ?_⟩
  show s.workqueue.length ≤ n + (s.goto w .pop).popping + s.posting
  omega

lemma Covered.interrupt (h : s.Covered) (hw : s.worker w = .wait) : (s.goto w .pop).Covered := by
  have hle := h.length_le
  have hpop := popping_goto hw
  refine ⟨h.fifo, ?_⟩
  show s.workqueue.length ≤ s.queuestat + (s.goto w .pop).popping + s.posting
  omega

/-- A worker that has popped leaves one request less behind it, or none at all. -/
lemma Covered.pop (h : s.Covered) (hw : s.worker w = .pop) : (s.pop w).Covered := by
  rw [ThreadPool.pop]
  split
  next hnil =>
    refine ⟨h.fifo, ?_⟩
    show s.workqueue.length ≤ _
    rw [hnil]
    exact Nat.zero_le _
  next request rest hcons =>
    have hle := h.length_le
    have hfifo := h.fifo
    rw [hcons] at hle hfifo
    have hpop : countAt (· = .pop) (Function.update s.worker w (request.elim .wait .process)) + 1 =
        s.popping := countAt_update_leave hw (by cases request <;> simp)
    constructor
    · show s.popped ++ [request] ++ rest = s.accepted
      rw [← hfifo, List.append_assoc, List.singleton_append]
    · show rest.length ≤ s.queuestat +
        countAt (· = .pop) (Function.update s.worker w (request.elim .wait .process)) + s.posting
      rw [List.length_cons] at hle
      omega

lemma Covered.done {request : T} (h : s.Covered) (hw : s.worker w = .process request) :
    (s.goto w .wait).Covered := by
  have hpop : (s.goto w .wait).popping = s.popping := countAt_update_of_iff (by simp [hw])
  refine ⟨h.fifo, ?_⟩
  show s.workqueue.length ≤ s.queuestat + (s.goto w .wait).popping + s.posting
  rw [hpop]
  exact h.length_le

/-! ### Runs -/

variable [DecidableEq A]

lemma Step.covered {e : Event W A T} (hs : Step s e s') (h : s.Covered) : s'.Covered := by
  cases hs with
  | append ha => exact h.append ha
  | post ha => exact h.post ha
  | wait hw hn => exact h.wait hw hn
  | interrupt hw => exact h.interrupt hw
  | pop hw => exact h.pop hw
  | done hw => exact h.done hw

/-- In every run the requests are taken out in the order in which they were taken in, each at most
once and none lost, and the queue is covered: so it is empty when every thread is done with `append`,
every worker is in `wait()` and the semaphore is 0. -/
theorem run_handsOut {maxRequest : ℕ} {es : List (Event W A T)} (hrun : Trace Step (init maxRequest) es s) :
    s.popped <+: s.accepted ∧ s.popped ++ s.workqueue = s.accepted ∧
      s.workqueue.length ≤ s.queuestat + s.popping + s.posting ∧
      ((∀ a, s.appender a = .idle) → (∀ w, s.worker w = .wait) → s.queuestat = 0 →
        s.workqueue = []) := by
  have h : s.Covered := hrun.invariant (fun _ _ _ hc hs => hs.covered hc) (covered_init maxRequest)
  refine ⟨⟨s.workqueue, h.fifo⟩, h.fifo, h.length_le, ?_⟩
  intro hidle hwait hsem
  have hposting : s.posting = 0 := countAt_eq_zero.mpr fun a => by simp [hidle a]
  have hpopping : s.popping = 0 := countAt_eq_zero.mpr fun w => by simp [hwait w]
  have hle := h.length_le
  rw [hsem, hposting, hpopping] at hle
  exact List.length_eq_zero_iff.mp (Nat.le_zero.mp hle)

/-- Two threads append, and the second request is taken out by a worker that was interrupted. -/
theorem run_handsOut_two :
    ∃ s : ThreadPool (Fin 2) (Fin 2) ℕ, s.accepted = [some 7, some 8] ∧
      s.popped <+: s.accepted ∧ s.workqueue.length ≤ s.queuestat + s.popping + s.posting :=
  have hrun : Trace Step (init 10000 : ThreadPool (Fin 2) (Fin 2) ℕ)
      [.append 0 (some 7), .append 1 (some 8), .post 0, .wait 0, .pop 0, .interrupt 1, .pop 1] _ :=
    .cons (.append rfl) (.cons (.append rfl) (.cons (.post rfl) (.cons (.wait rfl rfl)
      (.cons (.pop rfl) (.cons (.interrupt rfl) (.cons (.pop rfl) (.nil _)))))))
  ⟨_, rfl, (run_handsOut hrun).1, (run_handsOut hrun).2.2.1⟩

end LinuxServer.ThreadPool
