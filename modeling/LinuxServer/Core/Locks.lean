import LinuxServer.Core.Places
import LinuxServer.Core.Trace

/-!
# Threads that take locks

Each thread has what is left of its program: locks to take, locks to give back, and what it does to
the memory. A thread that wants a lock waits until nobody holds it; one that gives back a lock holds it.

Every step is one operation of a program, so there is an end to every run. When every thread takes its
locks in one order, and gives back all of them, a run ends nowhere but where all programs are done.
-/

namespace Core

inductive LockOp (L M : Type*)
  | lock (l : L)
  | unlock (l : L)
  | act (f : M → M)

structure Locks (T L M : Type*) where
  rest : T → List (LockOp L M)
  holder : L → Option T
  memory : M

namespace Locks

variable {T L M : Type*}

/-- Nobody holds a lock. -/
def start (program : T → List (LockOp L M)) (memory : M) : Locks T L M where
  rest := program
  holder _ := none
  memory := memory

section Steps

variable [DecidableEq T] [DecidableEq L]

/-- The thread `t` has come to `ops`. -/
def goto (s : Locks T L M) (t : T) (ops : List (LockOp L M)) : Locks T L M :=
  { s with rest := Function.update s.rest t ops }

inductive Step : Locks T L M → T → Locks T L M → Prop
  | lock {s : Locks T L M} {t : T} {l : L} {ops : List (LockOp L M)} :
      s.rest t = .lock l :: ops → s.holder l = none →
        Step s t { s.goto t ops with holder := Function.update s.holder l (some t) }
  | unlock {s : Locks T L M} {t : T} {l : L} {ops : List (LockOp L M)} :
      s.rest t = .unlock l :: ops → s.holder l = some t →
        Step s t { s.goto t ops with holder := Function.update s.holder l none }
  | act {s : Locks T L M} {t : T} {f : M → M} {ops : List (LockOp L M)} :
      s.rest t = .act f :: ops → Step s t { s.goto t ops with memory := f s.memory }

variable {s s' : Locks T L M} {t u : T} {l : L} {ts : List T}

/-- No thread can go on. -/
def Stuck (s : Locks T L M) : Prop := ∀ t s', ¬ Step s t s'

def Done (s : Locks T L M) : Prop := ∀ t, s.rest t = []

omit [DecidableEq L] in
lemma rest_goto (s : Locks T L M) (t : T) (ops : List (LockOp L M)) : (s.goto t ops).rest t = ops :=
  Function.update_self _ _ _

omit [DecidableEq L] in
lemma rest_goto_of_ne (h : u ≠ t) (ops : List (LockOp L M)) : (s.goto t ops).rest u = s.rest u :=
  Function.update_of_ne h _ _

/-- A step is one operation of the thread that takes it. -/
lemma Step.rest (hs : Step s t s') : (∃ op, s.rest t = op :: s'.rest t) ∧ ∀ u, u ≠ t → s'.rest u = s.rest u := by
  cases hs with
  | @lock l ops hrest _ =>
    refine ⟨⟨.lock l, ?_⟩, fun u hu => rest_goto_of_ne hu ops⟩
    rw [hrest]
    exact congrArg _ (rest_goto s t ops).symm
  | @unlock l ops hrest _ =>
    refine ⟨⟨.unlock l, ?_⟩, fun u hu => rest_goto_of_ne hu ops⟩
    rw [hrest]
    exact congrArg _ (rest_goto s t ops).symm
  | @act f ops hrest =>
    refine ⟨⟨.act f, ?_⟩, fun u hu => rest_goto_of_ne hu ops⟩
    rw [hrest]
    exact congrArg _ (rest_goto s t ops).symm

lemma Step.lock_eq {ops : List (LockOp L M)} (hs : Step s t s') (hrest : s.rest t = .lock l :: ops) :
    s.holder l = none ∧ s'.holder = Function.update s.holder l (some t) ∧ s'.memory = s.memory := by
  cases hs with
  | lock h hnone =>
    cases hrest.symm.trans h
    exact ⟨hnone, rfl, rfl⟩
  | unlock h _ => cases hrest.symm.trans h
  | act h => cases hrest.symm.trans h

lemma Step.unlock_eq {ops : List (LockOp L M)} (hs : Step s t s') (hrest : s.rest t = .unlock l :: ops) :
    s'.holder = Function.update s.holder l none ∧ s'.memory = s.memory := by
  cases hs with
  | lock h _ => cases hrest.symm.trans h
  | unlock h _ =>
    cases hrest.symm.trans h
    exact ⟨rfl, rfl⟩
  | act h => cases hrest.symm.trans h

lemma Step.act_eq {f : M → M} {ops : List (LockOp L M)} (hs : Step s t s') (hrest : s.rest t = .act f :: ops) :
    s'.holder = s.holder ∧ s'.memory = f s.memory := by
  cases hs with
  | lock h _ => cases hrest.symm.trans h
  | unlock h _ => cases hrest.symm.trans h
  | act h =>
    cases hrest.symm.trans h
    exact ⟨rfl, rfl⟩

lemma Done.stuck (h : s.Done) : s.Stuck := by
  intro t s' hs
  obtain ⟨⟨op, hop⟩, -⟩ := hs.rest
  rw [h t] at hop
  cases hop

/-- Who is stuck waits for a lock that somebody holds, or gives back one that he does not hold. -/
lemma Stuck.waits (h : s.Stuck) : s.rest t = [] ∨
    (∃ l ops u, s.rest t = .lock l :: ops ∧ s.holder l = some u) ∨
      ∃ l ops, s.rest t = .unlock l :: ops ∧ s.holder l ≠ some t := by
  cases hrest : s.rest t with
  | nil => exact .inl rfl
  | cons op ops =>
    cases op with
    | lock l =>
      cases hl : s.holder l with
      | none => exact absurd (.lock hrest hl) (h t _)
      | some u => exact .inr (.inl ⟨l, ops, u, rfl, hl⟩)
    | unlock l => exact .inr (.inr ⟨l, ops, rfl, fun hl => h t _ (.unlock hrest hl)⟩)
    | act f => exact absurd (.act hrest) (h t _)

/-! ### The end of a run -/

/-- How many operations are left. -/
def size [Fintype T] (s : Locks T L M) : ℕ := ∑ t, (s.rest t).length

lemma Step.size [Fintype T] (hs : Step s t s') : s'.size + 1 = s.size := by
  obtain ⟨⟨op, hop⟩, hother⟩ := hs.rest
  have hsum := sum_of_ne (f := fun u => (s.rest u).length) (g := fun u => (s'.rest u).length) t fun u hu => by
    rw [hother u hu]
  simp only [hop, List.length_cons] at hsum
  rw [Locks.size, Locks.size]
  omega

/-- A run is as long as the operations that it has done. -/
theorem size_run [Fintype T] (hrun : Trace Step s ts s') : s'.size + ts.length = s.size := by
  induction hrun with
  | nil => rfl
  | cons hs _ ih =>
    rw [← hs.size, ← ih, List.length_cons]
    omega

/-! ### Locks in one order -/

variable [PartialOrder L]

/-- The program takes every lock behind those that are held, and gives back no others, and all. -/
def Orderly : List (LockOp L M) → Set L → Prop
  | [], held => held = ∅
  | .lock l :: ops, held => (∀ l' ∈ held, l' < l) ∧ Orderly ops (insert l held)
  | .unlock l :: ops, held => l ∈ held ∧ Orderly ops (held \ {l})
  | .act _ :: ops, held => Orderly ops held

/-- The locks that the thread holds. -/
def held (s : Locks T L M) (t : T) : Set L := {l | s.holder l = some t}

def InOrder (s : Locks T L M) : Prop := ∀ t, Orderly (s.rest t) (s.held t)

omit [DecidableEq L] in
/-- One thread goes on, and takes or gives back a lock. -/
lemma InOrder.update {holder : L → Option T} {memory : M} {ops : List (LockOp L M)} (h : s.InOrder)
    (hself : Orderly ops {l | holder l = some t})
    (hother : ∀ u, u ≠ t → ∀ l, holder l = some u ↔ s.holder l = some u) :
    InOrder { s.goto t ops with holder := holder, memory := memory } := by
  intro u
  by_cases hu : u = t
  · subst hu
    show Orderly ((s.goto u ops).rest u) _
    rw [rest_goto]
    exact hself
  · show Orderly ((s.goto t ops).rest u) {l | holder l = some u}
    have hheld : {l | holder l = some u} = s.held u := Set.ext fun l => hother u hu l
    rw [rest_goto_of_ne hu, hheld]
    exact h u

lemma Step.inOrder (hs : Step s t s') (h : s.InOrder) : s'.InOrder := by
  have ht := h t
  cases hs with
  | @lock l ops hrest hnone =>
    rw [hrest] at ht
    refine h.update ?_ fun u hu l' => ?_
    · have hheld : {l' | Function.update s.holder l (some t) l' = some t} = insert l (s.held t) := by
        ext l'
        by_cases hl : l' = l <;> simp [held, hl]
      rw [hheld]
      exact ht.2
    · by_cases hl : l' = l
      · subst hl
        simp [hnone, Ne.symm hu]
      · rw [Function.update_of_ne hl]
  | @unlock l ops hrest hholder =>
    rw [hrest] at ht
    refine h.update ?_ fun u hu l' => ?_
    · have hheld : {l' | Function.update s.holder l none l' = some t} = s.held t \ {l} := by
        ext l'
        by_cases hl : l' = l <;> simp [held, hl]
      rw [hheld]
      exact ht.2
    · by_cases hl : l' = l
      · subst hl
        simp [hholder, Ne.symm hu]
      · rw [Function.update_of_ne hl]
  | @act f ops hrest =>
    rw [hrest] at ht
    exact h.update ht fun _ _ _ => Iff.rfl

/-- With locks in one order, the thread that waits for a last one waits for nobody. -/
theorem InOrder.done_of_stuck [Finite L] (h : s.InOrder) (hstuck : s.Stuck) : s.Done := by
  intro t
  by_contra hnot
  have hwaits : ∀ {t}, s.rest t ≠ [] → ∃ l ops u, s.rest t = .lock l :: ops ∧ s.holder l = some u := by
    intro t hne
    rcases hstuck.waits (t := t) with hnil | hlock | ⟨l, ops, hrest, hl⟩
    · exact absurd hnil hne
    · exact hlock
    · have ht := h t
      rw [hrest] at ht
      exact absurd ht.1 hl
  let wanted : Set L := {l | ∃ t ops, s.rest t = .lock l :: ops}
  have hne : wanted.Nonempty := by
    obtain ⟨l, ops, -, hrest, -⟩ := hwaits hnot
    exact ⟨l, t, ops, hrest⟩
  obtain ⟨l, ⟨v, ops, hrest⟩, hmax⟩ := (Set.toFinite wanted).exists_maximal hne
  obtain ⟨l', ops', u, hrest', hholder⟩ := hwaits (t := v) (by rw [hrest]; simp)
  obtain ⟨rfl, rfl⟩ : l = l' ∧ ops = ops' := by simpa [hrest] using hrest'
  -- who holds that lock is not done, so he wants one that is behind it
  have hu : s.rest u ≠ [] := by
    intro hnil
    have hu := h u
    rw [hnil] at hu
    have hmem : l ∈ s.held u := hholder
    rw [show s.held u = ∅ from hu] at hmem
    exact hmem
  obtain ⟨l₁, ops₁, -, hrest₁, -⟩ := hwaits hu
  have hu' := h u
  rw [hrest₁] at hu'
  have hlt : l < l₁ := hu'.1 l hholder
  exact hlt.not_ge (hmax ⟨u, ops₁, hrest₁⟩ hlt.le)

/-- A run of such programs ends where all of them are done, after so many steps as they have operations. -/
theorem run_done [Fintype T] [Finite L] (hrun : Trace Step s ts s') (h : s.InOrder) (hstuck : s'.Stuck) :
    s'.Done ∧ ts.length = s.size := by
  have hdone := (hrun.invariant (fun _ _ _ h hs => hs.inOrder h) h).done_of_stuck hstuck
  refine ⟨hdone, ?_⟩
  have hsize := size_run hrun
  have hzero : s'.size = 0 := Finset.sum_eq_zero fun t _ => by rw [hdone t, List.length_nil]
  rwa [hzero, Nat.zero_add] at hsize

end Steps

end Locks

end Core
