import LinuxServer.Core.Locks

/-!
# A process with two threads that forks

`thread_fork.cpp`: `fork` copies the mutex as it is, and of the threads nothing but the one that forks. The
handlers of `pthread_atfork` see to it that it is this thread that holds the mutex then: `prepare`
takes it, and both processes give it back by `infork`.

The two mutexes are that of the parent and its copy in the child. The model begins behind `pthread_atfork`
and ends before the last `pthread_mutex_unlock` of `main`; that `fork` fails is left out, and so is
`sleep`, since the threads take their steps in any order. `another` ends without a `return`, which is
taken for one whose value nobody asks for.
-/

namespace LinuxServer.ThreadFork

open Core Core.Locks

inductive Mutex
  | parents
  | childs
  deriving DecidableEq

inductive Thread
  | main
  | another
  | child
  deriving DecidableEq

instance : Fintype Thread := ⟨{.main, .another, .child}, fun t => by cases t <;> decide⟩

instance : Finite Mutex := Finite.of_injective (fun l => decide (l = .parents)) fun l l' h => by
  cases l <;> cases l' <;> simp at h ⊢

/-- Nobody takes a mutex while he holds another one. -/
instance : PartialOrder Mutex where
  le l l' := l = l'
  le_refl _ := rfl
  le_trans _ _ _ h h' := h.trans h'
  le_antisymm _ _ h _ := h

/-- `another` -/
def another : List (LockOp Mutex Unit) := [.lock .parents, .unlock .parents]

/-- `prepare` -/
def prepare : List (LockOp Mutex Unit) := [.lock .parents]

/-- `infork`, in the parent and in the child -/
def infork (mutex : Mutex) : List (LockOp Mutex Unit) := [.unlock mutex]

/-- The branch of the child, behind the handler. -/
def child : List (LockOp Mutex Unit) := infork .childs ++ [.lock .childs, .unlock .childs]

/-- Both threads, when `main` calls `fork`: what it does before and behind the fork. -/
def program : Thread → List (LockOp Mutex Unit)
  | .main => prepare ++ infork .parents
  | .another => another
  | .child => []

def init : Locks Thread Mutex Unit := .start program ()

/-- `main` in the child. -/
def copied : Thread → Thread
  | .main => .child
  | t => t

/-- The child comes with a copy of the mutex. Who holds it, holds the copy; but of the threads the child has
`main` alone. -/
def fork (s : Locks Thread Mutex Unit) : Locks Thread Mutex Unit :=
  { s with
    rest := Function.update s.rest .child child
    holder := Function.update s.holder .childs ((s.holder .parents).map copied) }

variable {s s' : Locks Thread Mutex Unit} {es es' : List Thread} {t : Thread}

lemma holder_fork_parents (s : Locks Thread Mutex Unit) : (fork s).holder .parents = s.holder .parents := by
  simp [fork]

lemma holder_fork_childs (s : Locks Thread Mutex Unit) :
    (fork s).holder .childs = (s.holder .parents).map copied := by
  simp [fork]

lemma rest_fork_child (s : Locks Thread Mutex Unit) : (fork s).rest .child = child := by
  simp [fork]

lemma rest_fork_of_ne (h : t ≠ .child) : (fork s).rest t = s.rest t := by
  simp [fork, h]

lemma inOrder_init : init.InOrder := by
  intro t
  have hheld : init.held t = ∅ := Set.eq_empty_of_forall_notMem fun l hl => by cases hl
  rw [hheld]
  cases t <;> simp [init, start, program, prepare, infork, another, Orderly]

/-- Before the fork nobody has to do with the mutex of the child. -/
structure Before (s : Locks Thread Mutex Unit) : Prop where
  rest : ∀ t, s.rest t <:+ program t
  childs : s.holder .childs = none

lemma eq_parents {l : Mutex} (h : .lock l ∈ program t ∨ .unlock l ∈ program t) : l = .parents := by
  cases t with
  | child => simp [program] at h
  | main | another => simpa [program, prepare, infork, another] using h

lemma Before.step (h : Before s) (hs : Step s t s') : Before s' := by
  obtain ⟨⟨op, hop⟩, hother⟩ := hs.rest
  have ht := h.rest t
  have hmem : ∀ {op' ops}, s.rest t = op' :: ops → op' ∈ program t := by
    intro op' ops hrest
    rw [hrest] at ht
    exact ht.subset List.mem_cons_self
  refine ⟨fun u => ?_, ?_⟩
  · by_cases hu : u = t
    · subst hu
      rw [hop] at ht
      exact (List.suffix_cons _ _).trans ht
    · rw [hother u hu]
      exact h.rest u
  · cases hs with
    | lock hrest _ =>
      obtain rfl := eq_parents (.inl (hmem hrest))
      simpa using h.childs
    | unlock hrest _ =>
      obtain rfl := eq_parents (.inr (hmem hrest))
      simpa using h.childs
    | act => exact h.childs

/-- `main` holds the mutex when it forks. -/
lemma holder_eq (h : s.InOrder) (hmain : s.rest .main = infork .parents) : s.holder .parents = some .main := by
  have hm := h .main
  rw [hmain] at hm
  exact hm.1

lemma inOrder_fork (h : s.InOrder) (hb : Before s) (hmain : s.rest .main = infork .parents) :
    (fork s).InOrder := by
  have hparents := holder_eq h hmain
  have hholder : ∀ l t, (fork s).holder l = some t ↔ l = .childs ∧ t = .child ∨ l = .parents ∧ t = .main := by
    intro l t
    cases l with
    | parents =>
      rw [holder_fork_parents, hparents]
      simp [eq_comm]
    | childs =>
      rw [holder_fork_childs, hparents]
      simp [copied, eq_comm]
  have hheld : ∀ t, (fork s).held t = {l | l = .childs ∧ t = .child ∨ l = .parents ∧ t = .main} :=
    fun t => Set.ext fun l => hholder l t
  intro t
  rw [hheld]
  cases t with
  | main =>
    rw [rest_fork_of_ne (by decide), hmain]
    simp [infork, Orderly]
  | another =>
    rw [rest_fork_of_ne (by decide)]
    have hnone : s.held .another = ∅ := by
      refine Set.eq_empty_of_forall_notMem fun l hl => ?_
      cases l with
      | parents => cases hparents.symm.trans hl
      | childs => cases hb.childs.symm.trans hl
    have hempty : {l : Mutex | l = .childs ∧ Thread.another = .child ∨ l = .parents ∧ Thread.another = .main} = ∅ := by
      simp
    rw [hempty, ← hnone]
    exact h .another
  | child =>
    rw [rest_fork_child]
    simp [child, infork, Orderly]

lemma size_fork (hb : Before s) : (fork s).size = s.size + 3 := by
  have hchild : s.rest .child = [] := List.suffix_nil.mp (hb.rest .child)
  have hsum := sum_of_ne (f := fun t => (s.rest t).length) (g := fun t => ((fork s).rest t).length) .child
    fun t ht => by rw [rest_fork_of_ne ht]
  simpa [Locks.size, hchild, rest_fork_child, child, infork] using hsum

/-- In every run, as long as `main` has not got the mutex in `prepare`, some thread can go on. When it forks
then, whatever the three threads do, they do not get stuck before all of them are done; and then
nobody holds a mutex, so that the last `pthread_mutex_unlock` of `main` gives back what it does not hold. -/
theorem run_forks (hrun : Trace Step init es s) :
    (s.rest .main = prepare ++ infork .parents → ¬ s.Stuck) ∧
      (s.rest .main = infork .parents → ∀ es' s', Trace Step (fork s) es' s' → es.length + es'.length ≤ 7 ∧
        (s'.Stuck → s'.Done ∧ es.length + es'.length = 7 ∧ ∀ l, s'.holder l = none)) := by
  have horder : s.InOrder := hrun.invariant (fun _ _ _ h hs => hs.inOrder h) inOrder_init
  have hbefore : Before s := by
    refine hrun.invariant (fun _ _ _ h hs => h.step hs) ⟨fun _ => List.suffix_rfl, rfl⟩
  have hsize : s.size + es.length = 4 := size_run hrun
  refine ⟨fun hmain hstuck => ?_, fun hmain es' s' hrun' => ?_⟩
  · have hnil := horder.done_of_stuck hstuck .main
    rw [hmain] at hnil
    cases hnil
  · have horder' := inOrder_fork horder hbefore hmain
    have hsize' := size_run hrun'
    rw [size_fork hbefore] at hsize'
    refine ⟨by omega, fun hstuck => ?_⟩
    obtain ⟨hdone, hlength⟩ := run_done hrun' horder' hstuck
    rw [size_fork hbefore] at hlength
    refine ⟨hdone, by omega, fun l => ?_⟩
    have hfinal : s'.InOrder := hrun'.invariant (fun _ _ _ h hs => hs.inOrder h) horder'
    rw [Option.eq_none_iff_forall_ne_some]
    intro t ht
    have hempty := hfinal t
    rw [hdone t] at hempty
    have hmem : l ∈ s'.held t := ht
    rw [show s'.held t = ∅ from hempty] at hmem
    exact hmem

/-- `another` takes the mutex first, and gives it back before `main` forks. -/
theorem run_forks_three : ∃ s : Locks Thread Mutex Unit, Trace Step init [.another, .another, .main] s ∧
    ∀ es' s', Trace Step (fork s) es' s' → s'.Stuck → s'.Done ∧ es'.length = 4 := by
  have hrun : Trace Step init [.another, .another, .main] _ :=
    .cons (.lock rfl rfl) (.cons (.unlock rfl rfl) (.cons (.lock rfl rfl) (.nil _)))
  refine ⟨_, hrun, fun es' s' hrun' hstuck => ?_⟩
  obtain ⟨hdone, hlength, -⟩ := ((run_forks hrun).2 rfl es' s' hrun').2 hstuck
  exact ⟨hdone, Nat.add_left_cancel hlength⟩

end LinuxServer.ThreadFork
