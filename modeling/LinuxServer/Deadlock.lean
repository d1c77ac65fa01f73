import LinuxServer.Core.Locks

/-!
# Two threads with two mutexes

`deadlock.cpp`: each of the two threads takes its own mutex, and then the other one's. Behind the
second one it adds to its variable that of the other thread.

The model begins behind `pthread_create` and ends before `pthread_join`; `sleep` is left out, since the
threads take their steps in any order.
-/

namespace LinuxServer.Deadlock

open Core Core.Locks

/-- `mutex_a` and `mutex_b`, with the variables that go with them. -/
inductive Mutex
  | a
  | b
  deriving DecidableEq

inductive Thread
  | main
  | another
  deriving DecidableEq

/-- The values of `a` and `b`. -/
abbrev Vars := Mutex → ℤ

/-- The body of both threads, for `x` and `y` in place of `a` and `b`: `++x` behind the first mutex, and
`x += y++` behind the second one. -/
def critical (x y : Mutex) : List (LockOp Mutex Vars) :=
  [.lock x, .act fun v => Function.update v x (v x + 1),
    .lock y, .act fun v => Function.update (Function.update v x (v x + v y)) y (v y + 1),
    .unlock y, .unlock x]

/-- `main` -/
def main : List (LockOp Mutex Vars) := critical .a .b

/-- `another` -/
def another : List (LockOp Mutex Vars) := critical .b .a

def program : Thread → List (LockOp Mutex Vars)
  | .main => main
  | .another => another

/-- At the first operation of both threads. -/
def init : Locks Thread Mutex Vars := .start program fun _ => 0

/-! ### Where the threads are -/

instance : Fintype Thread := ⟨{.main, .another}, fun t => by cases t <;> decide⟩

def Thread.other : Thread → Thread
  | .main => .another
  | .another => .main

/-- The mutex that a thread takes first. -/
def Thread.own : Thread → Mutex
  | .main => .a
  | .another => .b

variable {s s' : Locks Thread Mutex Vars} {t u : Thread} {ts : List Thread}

lemma eq_or_eq_other (t u : Thread) : u = t ∨ u = t.other := by
  cases t <;> cases u <;> simp [Thread.other]

lemma Thread.other_ne (t : Thread) : t.other ≠ t := by
  cases t <;> simp [Thread.other]

lemma Thread.other_other (t : Thread) : t.other.other = t := by
  cases t <;> rfl

lemma Thread.own_ne (t : Thread) : t.own ≠ t.other.own := by
  cases t <;> simp [Thread.own, Thread.other]

lemma program_eq (t : Thread) : program t = critical t.own t.other.own := by
  cases t <;> rfl

/-- How many steps of `ts` are those of `t`. -/
abbrev far (ts : List Thread) (t : Thread) : ℕ := ts.count t

/-- `t` has come through both locks before the other thread has begun. -/
def First (ts : List Thread) (t : Thread) : Prop := ts.take 3 = [t, t, t]

instance (ts : List Thread) (t : Thread) : Decidable (First ts t) := inferInstanceAs (Decidable (_ = _))

lemma length_eq (ts : List Thread) (t : Thread) : ts.length = far ts t + far ts t.other := by
  induction ts with
  | nil => rfl
  | cons u ts ih =>
    rw [List.length_cons, ih]
    rcases eq_or_eq_other t u with rfl | rfl
    · simp [far, u.other_ne.symm]
      omega
    · simp [far, t.other_ne]
      omega

lemma far_snoc_self (ts : List Thread) (t : Thread) : far (ts ++ [t]) t = far ts t + 1 := by
  simp [far]

lemma far_snoc_of_ne (h : u ≠ t) : far (ts ++ [t]) u = far ts u := by
  simp [far, h.symm]

lemma First.snoc (h : First ts t) (u : Thread) : First (ts ++ [u]) t := by
  have hle : 3 ≤ ts.length := by
    have hlen := congrArg List.length h
    simp only [List.length_take, List.length_cons, List.length_nil] at hlen
    omega
  rw [First, List.take_append_of_le_length hle]
  exact h

lemma First.unique (h : First ts t) (h' : First ts u) : t = u := by
  have heq := h.symm.trans h'
  simpa using heq

/-- Only with the third step it comes out who is first. -/
lemma First.of_snoc (h : First (ts ++ [u]) t) : First ts t ∨ t = u ∧ ts = [u, u] := by
  by_cases hlen : 3 ≤ ts.length
  · rw [First, List.take_append_of_le_length hlen] at h
    exact .inl h
  · have hall : ts ++ [u] = [t, t] ++ [t] := by
      rw [First, List.take_of_length_le (by simp; omega)] at h
      exact h
    obtain ⟨rfl, heq⟩ := List.append_inj' hall rfl
    obtain rfl : u = t := by simpa using heq
    exact .inr ⟨rfl, rfl⟩

/-- Who takes his third step before the other thread has begun is first. -/
lemma first_snoc_self (ht : far ts t = 2) (hother : far ts t.other = 0) : First (ts ++ [t]) t := by
  have hlen : ts.length = 2 := by rw [length_eq ts t, ht, hother]
  have hts : ts = [t, t] := by
    have hrep : ts = List.replicate 2 t := by
      refine List.eq_replicate_iff.mpr ⟨hlen, fun u hu => ?_⟩
      rcases eq_or_eq_other t u with rfl | rfl
      · rfl
      · exact absurd hu (List.count_eq_zero.mp hother)
    exact hrep
  rw [First, hts]
  rfl

/-- What the threads have done so far says where they are, who holds the mutexes, and what is in the
variables. -/
structure Keeps (s : Locks Thread Mutex Vars) (ts : List Thread) : Prop where
  rest : ∀ t, s.rest t = (program t).drop (far ts t)
  le : ∀ t, far ts t ≤ 6
  holder : ∀ t, s.holder t.own =
    if 1 ≤ far ts t ∧ far ts t ≤ 5 then some t
    else if 3 ≤ far ts t.other ∧ far ts t.other ≤ 4 then some t.other
    else none
  /-- Who has come through both locks was first, or the other thread was and is done. -/
  through : ∀ t, 3 ≤ far ts t → First ts t ∨ First ts t.other ∧ far ts t.other = 6
  first : ∀ t, First ts t → 3 ≤ far ts t ∧ (1 ≤ far ts t.other → 5 ≤ far ts t) ∧
    (3 ≤ far ts t.other → far ts t = 6)
  memory : ∀ t, s.memory t.own = (if 2 ≤ far ts t then 1 else 0) + (if 4 ≤ far ts t.other then 1 else 0) +
    (if 4 ≤ far ts t ∧ ¬ First ts t then 1 else 0)

lemma not_first_nil (t : Thread) : ¬ First [] t := by
  simp [First]

lemma keeps_init : Keeps init [] where
  rest _ := rfl
  le _ := Nat.zero_le 6
  holder _ := rfl
  through t h := absurd h (by simp [far])
  first t h := absurd h (not_first_nil t)
  memory _ := rfl

/-! ### Steps -/

lemma Keeps.rest_eq (h : Keeps s ts) (t : Thread) :
    s.rest t = (critical t.own t.other.own).drop (far ts t) := by
  rw [h.rest, program_eq]

lemma Keeps.lt (h : Keeps s ts) (hs : Step s t s') : far ts t < 6 := by
  obtain ⟨⟨op, hop⟩, -⟩ := hs.rest
  rw [h.rest_eq] at hop
  by_contra hge
  have hnil : (critical t.own t.other.own).drop (far ts t) = [] := List.drop_eq_nil_iff.mpr (not_lt.mp hge)
  rw [hnil] at hop
  cases hop

/-- As long as a thread is not done, the other one does not come late. -/
lemma Keeps.first_of_late (h : Keeps s ts) (hlt : far ts t < 6) (hlate : 4 ≤ far ts t.other) :
    First ts t.other := by
  refine (h.through t.other (by omega)).resolve_right ?_
  rintro ⟨-, hsix⟩
  rw [t.other_other] at hsix
  omega

/-- Who has come through both locks, is first, or the other thread was first and is done. -/
lemma Keeps.cases (h : Keeps s ts) (hlt : far ts t < 6) (hthree : 3 ≤ far ts t) :
    First ts t ∧ far ts t.other < 3 ∧ (far ts t < 5 → far ts t.other = 0) ∨
      ¬ First ts t ∧ far ts t.other = 6 := by
  rcases h.through t hthree with hfirst | ⟨hfirst, hsix⟩
  · obtain ⟨-, hone, hall⟩ := h.first t hfirst
    refine .inl ⟨hfirst, ?_, ?_⟩
    · by_contra hn
      have := hall (not_lt.mp hn)
      omega
    · intro hk
      by_contra hn
      have := hone (by omega)
      omega
  · exact .inr ⟨fun ht => t.other_ne (hfirst.unique ht), hsix⟩

/-- What is to be shown of a step, with what it does to the mutexes and the variables. -/
lemma Keeps.snoc (h : Keeps s ts) (hs : Step s t s')
    (hself : s'.holder t.own =
      if far ts t + 1 ≤ 5 then some t
      else if 3 ≤ far ts t.other ∧ far ts t.other ≤ 4 then some t.other else none)
    (hother : s'.holder t.other.own =
      if 1 ≤ far ts t.other ∧ far ts t.other ≤ 5 then some t.other
      else if 3 ≤ far ts t + 1 ∧ far ts t + 1 ≤ 4 then some t else none)
    (hfree : (far ts t = 0 → First ts t.other → 5 ≤ far ts t.other) ∧
      (far ts t = 2 → far ts t.other = 0 ∨ far ts t.other = 6))
    (hmemory : s'.memory t.own = (if 2 ≤ far ts t + 1 then 1 else 0) +
      (if 4 ≤ far ts t.other then 1 else 0) + (if 4 ≤ far ts t + 1 ∧ ¬ First ts t then 1 else 0))
    (hmemory' : s'.memory t.other.own = (if 2 ≤ far ts t.other then 1 else 0) +
      (if 4 ≤ far ts t + 1 then 1 else 0)) :
    Keeps s' (ts ++ [t]) := by
  have hlt := h.lt hs
  obtain ⟨⟨op, hop⟩, hrest⟩ := hs.rest
  have hfar := far_snoc_self ts t
  have hfar' : far (ts ++ [t]) t.other = far ts t.other := far_snoc_of_ne t.other_ne
  have hlen := length_eq ts t
  constructor
  case rest =>
    intro u
    rcases eq_or_eq_other t u with rfl | rfl
    · rw [hfar, ← List.drop_drop, ← h.rest, hop]
      rfl
    · rw [hfar', hrest _ t.other_ne, h.rest]
  case le =>
    intro u
    rcases eq_or_eq_other t u with rfl | rfl
    · omega
    · rw [hfar']
      exact h.le _
  case holder =>
    intro u
    rcases eq_or_eq_other t u with rfl | rfl
    · rw [hself, hfar, hfar']
      simp
    · rw [hother, t.other_other, hfar, hfar']
  case through =>
    intro u hu
    rcases eq_or_eq_other t u with rfl | rfl
    · rw [hfar] at hu
      rw [hfar']
      by_cases hk : far ts u = 2
      · rcases hfree.2 hk with hzero | hsix
        · exact .inl (first_snoc_self hk hzero)
        · rcases h.through u.other (by omega) with hfirst | ⟨-, hdone⟩
          · exact .inr ⟨hfirst.snoc u, hsix⟩
          · rw [u.other_other] at hdone
            omega
      · refine (h.through u (by omega)).imp (fun hfirst => hfirst.snoc u) ?_
        rintro ⟨hfirst, hsix⟩
        exact ⟨hfirst.snoc u, hsix⟩
    · rw [hfar'] at hu
      rcases h.through t.other hu with hfirst | ⟨-, hdone⟩
      · exact .inl (hfirst.snoc t)
      · rw [t.other_other] at hdone
        omega
  case first =>
    intro u hu
    rcases hu.of_snoc with hold | ⟨rfl, rfl⟩
    · obtain ⟨hthree, hone, hall⟩ := h.first u hold
      rcases eq_or_eq_other t u with rfl | rfl
      · rw [hfar, hfar']
        refine ⟨by omega, fun hn => ?_, fun hn => ?_⟩
        · have := hone hn
          omega
        · have := hall hn
          omega
      · rw [t.other_other] at hone hall ⊢
        rw [hfar, hfar']
        refine ⟨hthree, fun _ => ?_, fun hk => ?_⟩
        · by_cases hzero : far ts t = 0
          · exact hfree.1 hzero hold
          · exact hone (by omega)
        · by_cases htwo : far ts t = 2
          · rcases hfree.2 htwo with hn | hn <;> omega
          · exact hall (by omega)
    · rw [hfar, hfar']
      have hzero : far [u, u] u.other = 0 := by simp [far, u.other_ne.symm]
      have htwo : far [u, u] u = 2 := by simp [far]
      omega
  case memory =>
    intro u
    rcases eq_or_eq_other t u with rfl | rfl
    · have hfirst : 4 ≤ far ts u + 1 → (First (ts ++ [u]) u ↔ First ts u) := by
        refine fun hk => ⟨fun hu => hu.of_snoc.resolve_right ?_, fun hu => hu.snoc u⟩
        rintro ⟨-, rfl⟩
        simp [far] at hk
      rw [hmemory, hfar, hfar']
      by_cases hk : 4 ≤ far ts u + 1
      · simp only [hk, hfirst hk]
      · simp only [hk, false_and]
    · have hnot : ¬ (4 ≤ far ts t.other ∧ ¬ First (ts ++ [t]) t.other) :=
        fun hlate => hlate.2 ((h.first_of_late hlt hlate.1).snoc t)
      rw [hmemory', t.other_other, hfar, hfar', if_neg hnot, add_zero]

/-- The own mutex is free when it is taken, and the other one, too. -/
lemma Keeps.of_free (h : Keeps s ts) (hnone : s.holder t.own = none) :
    ¬ (1 ≤ far ts t ∧ far ts t ≤ 5) ∧ ¬ (3 ≤ far ts t.other ∧ far ts t.other ≤ 4) := by
  rw [h.holder] at hnone
  split_ifs at hnone with h₁ h₂
  exact ⟨h₁, h₂⟩

lemma Keeps.step (h : Keeps s ts) (hs : Step s t s') : Keeps s' (ts ++ [t]) := by
  have hlt := h.lt hs
  have hrest := h.rest_eq t
  have hown := h.holder t
  have htheirs := h.holder t.other
  have hx := h.memory t
  have hy : s.memory t.other.own = (if 2 ≤ far ts t.other then 1 else 0) + (if 4 ≤ far ts t then 1 else 0) := by
    have hnot : ¬ (4 ≤ far ts t.other ∧ ¬ First ts t.other) :=
      fun hlate => hlate.2 (h.first_of_late hlt hlate.1)
    have hy := h.memory t.other
    rwa [t.other_other, if_neg hnot, add_zero] at hy
  have hle := h.le t.other
  have hthrough := h.cases hlt
  rw [t.other_other] at htheirs
  have hne := t.own_ne
  obtain hk | hk | hk | hk | hk | hk : far ts t = 0 ∨ far ts t = 1 ∨ far ts t = 2 ∨ far ts t = 3 ∨
    far ts t = 4 ∨ far ts t = 5 := by omega
  all_goals rw [hk] at hrest hown htheirs hx hy
  · obtain ⟨hnone, hholder, hmemory⟩ := hs.lock_eq hrest
    obtain ⟨-, hn⟩ := h.of_free hnone
    refine h.snoc hs ?_ ?_ ⟨fun _ hfirst => ?_, by omega⟩ ?_ ?_
    · rw [hholder, hk, Function.update_self]
      rfl
    · rw [hholder, hk, Function.update_of_ne hne.symm, htheirs]
      rfl
    · have := (h.first _ hfirst).1
      omega
    · rw [hmemory, hk, hx]
      simp
    · rw [hmemory, hk, hy]
      rfl
  · obtain ⟨hholder, hmemory⟩ := hs.act_eq hrest
    refine h.snoc hs ?_ ?_ ⟨by omega, by omega⟩ ?_ ?_
    · rw [hholder, hk, hown]
      rfl
    · rw [hholder, hk, htheirs]
      rfl
    · rw [hmemory, hk, Function.update_self, hx]
      simp [add_comm]
    · rw [hmemory, hk, Function.update_of_ne hne.symm, hy]
      rfl
  · obtain ⟨hnone, hholder, hmemory⟩ := hs.lock_eq hrest
    obtain ⟨hn, -⟩ := h.of_free hnone
    refine h.snoc hs ?_ ?_ ⟨by omega, fun _ => by omega⟩ ?_ ?_
    · rw [hholder, hk, Function.update_of_ne hne, hown]
      rfl
    · rw [hholder, hk, Function.update_self, if_neg hn]
      rfl
    · rw [hmemory, hk, hx]
      simp
    · rw [hmemory, hk, hy]
      rfl
  · obtain ⟨hholder, hmemory⟩ := hs.act_eq hrest
    refine h.snoc hs ?_ ?_ ⟨by omega, by omega⟩ ?_ ?_
    · rw [hholder, hk, hown]
      rfl
    · rw [hholder, hk, htheirs]
      rfl
    · rw [hmemory, hk, Function.update_of_ne hne, Function.update_self, hx, hy]
      rcases hthrough (by omega) with ⟨hfirst, -, hzero⟩ | ⟨hnot, hsix⟩
      · simp [hfirst, hzero (by omega)]
      · simp [hnot, hsix]
    · rw [hmemory, hk, Function.update_self, hy]
      simp
  · obtain ⟨hholder, hmemory⟩ := hs.unlock_eq hrest
    refine h.snoc hs ?_ ?_ ⟨by omega, by omega⟩ ?_ ?_
    · rw [hholder, hk, Function.update_of_ne hne, hown]
      rfl
    · have hn : ¬ (1 ≤ far ts t.other ∧ far ts t.other ≤ 5) := by
        rcases hthrough (by omega) with ⟨-, -, hzero⟩ | ⟨-, hsix⟩ <;> omega
      rw [hholder, hk, Function.update_self, if_neg hn]
      rfl
    · rw [hmemory, hk, hx]
      simp
    · rw [hmemory, hk, hy]
      rfl
  · obtain ⟨hholder, hmemory⟩ := hs.unlock_eq hrest
    refine h.snoc hs ?_ ?_ ⟨by omega, by omega⟩ ?_ ?_
    · have hn : ¬ (3 ≤ far ts t.other ∧ far ts t.other ≤ 4) := by
        rcases hthrough (by omega) with ⟨-, hn, -⟩ | ⟨-, hsix⟩ <;> omega
      rw [hholder, hk, Function.update_self, if_neg hn]
      rfl
    · rw [hholder, hk, Function.update_of_ne hne.symm, htheirs]
      rfl
    · rw [hmemory, hk, hx]
      simp
    · rw [hmemory, hk, hy]
      rfl

/-! ### Runs -/

/-- Who is stuck is done, or waits for the mutex of the other thread. -/
lemma Keeps.stuck (h : Keeps s ts) (hstuck : s.Stuck) (t : Thread) :
    far ts t = 6 ∨ far ts t = 0 ∧ 3 ≤ far ts t.other ∧ far ts t.other ≤ 4 ∨
      far ts t = 2 ∧ 1 ≤ far ts t.other ∧ far ts t.other ≤ 5 := by
  have hle := h.le t
  have hrest := h.rest_eq t
  have hown := h.holder t
  have htheirs := h.holder t.other
  rw [t.other_other] at htheirs
  have hwaits := hstuck.waits (t := t)
  obtain hk | hk | hk | hk | hk | hk | hk : far ts t = 0 ∨ far ts t = 1 ∨ far ts t = 2 ∨ far ts t = 3 ∨
    far ts t = 4 ∨ far ts t = 5 ∨ far ts t = 6 := by omega
  all_goals
    rw [hk] at hrest hown htheirs
    rw [hrest] at hwaits
  · obtain ⟨u, hu⟩ : ∃ u, s.holder t.own = some u := by simpa [critical] using hwaits
    rw [hu] at hown
    refine .inr (.inl ⟨hk, ?_⟩)
    by_contra hn
    simp [hn] at hown
  · simp [critical] at hwaits
  · obtain ⟨u, hu⟩ : ∃ u, s.holder t.other.own = some u := by simpa [critical] using hwaits
    refine .inr (.inr ⟨hk, ?_⟩)
    by_contra hn
    rw [hu, if_neg hn] at htheirs
    simp at htheirs
  · simp [critical] at hwaits
  · have hne : s.holder t.other.own ≠ some t := by simpa [critical] using hwaits
    have hn : ¬ (1 ≤ far ts t.other ∧ far ts t.other ≤ 5) := by
      rcases h.cases (t := t) (by omega) (by omega) with ⟨-, -, hzero⟩ | ⟨-, hsix⟩ <;> omega
    rw [if_neg hn] at htheirs
    exact absurd htheirs hne
  · have hne : s.holder t.own ≠ some t := by simpa [critical] using hwaits
    exact absurd hown hne
  · exact .inl hk

lemma run_keeps (hrun : Trace Step init ts s) : Keeps s ts := by
  have h : Keeps s ([] ++ ts) := hrun.history (I := Keeps) (fun _ _ _ _ h hs => h.step hs) keeps_init
  exact h

/-- Every run is over after twelve steps. Where it cannot go on, there was one thread that took the first
three steps, and then both are done, with 2 in its variable and 3 in that of the other thread; or
there was none, and then each thread holds its own mutex and is at the lock of the other one, with 1 in
both variables, since the fourth step. -/
theorem run_ends (hrun : Trace Step init ts s) : ts.length ≤ 12 ∧ (s.Stuck →
    (∃ t, First ts t ∧ s.Done ∧ s.memory t.own = 2 ∧ s.memory t.other.own = 3) ∨
      (∀ t, ¬ First ts t) ∧ ts.length = 4 ∧ ∀ t, (s.rest t).head? = some (.lock t.other.own) ∧
        s.holder t.own = some t ∧ s.memory t.own = 1) := by
  have h := run_keeps hrun
  constructor
  · have hsize := size_run hrun
    have hinit : init.size = 12 := rfl
    omega
  intro hstuck
  have hmain := h.stuck hstuck .main
  have hanother := h.stuck hstuck .another
  have hother : Thread.main.other = .another ∧ Thread.another.other = .main := ⟨rfl, rfl⟩
  rw [hother.1] at hmain
  rw [hother.2] at hanother
  have hfar : (∀ t, far ts t = 6) ∨ ∀ t, far ts t = 2 := by
    have hboth : far ts .main = 6 ∧ far ts .another = 6 ∨ far ts .main = 2 ∧ far ts .another = 2 := by omega
    refine hboth.imp (fun h t => ?_) fun h t => ?_ <;> cases t
    exacts [h.1, h.2, h.1, h.2]
  rcases hfar with hsix | htwo
  · obtain ⟨t, hfirst⟩ : ∃ t, First ts t := by
      rcases h.through .main (by rw [hsix]; decide) with hfirst | ⟨hfirst, -⟩
      · exact ⟨_, hfirst⟩
      · exact ⟨_, hfirst⟩
    have hnot : ¬ First ts t.other := fun hfirst' => t.other_ne (hfirst'.unique hfirst)
    refine .inl ⟨t, hfirst, fun u => ?_, ?_, ?_⟩
    · rw [h.rest_eq, hsix]
      rfl
    · rw [h.memory, hsix, hsix]
      simp [hfirst]
    · rw [h.memory, hsix, hsix]
      simp [hnot]
  · refine .inr ⟨fun t hfirst => ?_, ?_, fun t => ⟨?_, ?_, ?_⟩⟩
    · have hthree := (h.first t hfirst).1
      rw [htwo] at hthree
      omega
    · rw [length_eq ts .main, htwo, htwo]
    · rw [h.rest_eq, htwo]
      rfl
    · rw [h.holder, htwo]
      rfl
    · rw [h.memory, htwo, htwo]
      rfl

/-- Each thread has taken its own mutex, and the run is over. -/
theorem run_ends_four : ∃ (ts : List Thread) (s : Locks Thread Mutex Vars), Trace Step init ts s ∧ s.Stuck ∧
    ∀ t, (s.rest t).head? = some (.lock t.other.own) ∧ s.holder t.own = some t ∧
      s.memory t.own = 1 := by
  obtain ⟨s, hrun, hstuck⟩ : ∃ s, Trace Step init [.main, .another, .main, .another] s ∧ s.Stuck := by
    refine ⟨_, .cons (.lock rfl rfl) (.cons (.lock rfl rfl) (.cons (.act rfl) (.cons (.act rfl) (.nil _)))), ?_⟩
    intro t s' hs
    cases t with
    | main =>
      obtain ⟨hnone, -⟩ := hs.lock_eq rfl
      cases hnone
    | another =>
      obtain ⟨hnone, -⟩ := hs.lock_eq rfl
      cases hnone
  refine ⟨_, s, hrun, hstuck, ?_⟩
  rcases (run_ends hrun).2 hstuck with ⟨t, hfirst, -⟩ | ⟨-, -, hall⟩
  · cases t <;> exact absurd hfirst (by decide)
  · exact hall

end LinuxServer.Deadlock
