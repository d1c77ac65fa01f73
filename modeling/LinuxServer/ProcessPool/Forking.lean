import LinuxServer.Core.Trace

/-!
# The pipes of the pool

The constructor of `processpool` opens a pipe for every worker and forks it. A worker has a copy of what
is open in the parent at that time: of its own pipe it closes the parent's end, of the pipes of the
workers before it nothing. So the parent's end of a pipe is open in every later worker too.

A worker may fork in its turn: `cgi_conn::process` does so for every request, and the copy becomes a
CGI program with all that is open in the worker. Such a program may close what it has inherited, as
the copy does with `STDIN_FILENO`, and is taken to fork nothing itself.

All of these processes go on in any order, and each may come to its end at any time. Of what is open in
a process there are the ends of these pipes only; what `T` opens and closes otherwise is left out.
-/

namespace LinuxServer.ProcessPool

open Core

local instance neZero_two : NeZero 2 := ⟨two_ne_zero⟩

/-- What `m_sub_process[worker].m_pipefd[side]` is opened as. -/
structure End where
  worker : ℕ
  side : Fin 2
  deriving DecidableEq

/-- Where a process is: at the test of the loop of the constructor or, as the parent, behind it; behind
`socketpair`; behind `fork`; as a worker, in `run_child`, and there behind `close(pipefd)`. -/
inductive ProcessAt
  | loop
  | opened
  | forked
  | run
  | closed
  deriving DecidableEq

/-- A process: what its descriptors are, and its copy of the pool. `i` is the loop variable; `mPid i` is
-1 when the exit of the worker `i` was handled. -/
structure Process where
  fds : ℕ → Option End
  mPipefd : ℕ → Fin 2 → ℕ
  mIdx : Option ℕ
  joined : ℕ → Bool
  i : ℕ
  place : ProcessAt

/-- The processes that have not ended: the parent, which is `none`, and the workers; and the CGI
processes, each with the worker that has forked it. -/
structure Forking where
  mProcessNumber : ℕ
  process : Option ℕ → Option Process
  cgi : ℕ → Option (ℕ × Process)

namespace Process

/-- `close(fd)` -/
def close (p : Process) (fd : ℕ) : Process := { p with fds := Function.update p.fds fd none }

/-- `socketpair(PF_UNIX, SOCK_STREAM, 0, m_sub_process[i].m_pipefd)` -/
def socketpair (p : Process) (fd₀ fd₁ : ℕ) : Process :=
  { p with
    fds := Function.update (Function.update p.fds fd₀ (some ⟨p.i, 0⟩)) fd₁ (some ⟨p.i, 1⟩)
    mPipefd := Function.update p.mPipefd p.i ![fd₀, fd₁]
    place := .opened }

/-- `fork()` has returned. -/
def forked (p : Process) : Process := { p with place := .forked }

/-- The rest of a turn of the loop in the parent. -/
def goOn (p : Process) : Process := { p.close (p.mPipefd p.i 1) with i := p.i + 1, place := .loop }

/-- The rest of the constructor in a worker. -/
def enter (p : Process) : Process :=
  { p.close (p.mPipefd p.i 0) with mIdx := some p.i, place := .run }

/-- The body of the loop of SIGCHLD, for the worker `j`. -/
def join (p : Process) (j : ℕ) : Process :=
  { p.close (p.mPipefd j 0) with joined := Function.update p.joined j true }

/-- The end of `run_child`: `pipefd` is `m_sub_process[m_idx].m_pipefd[1]`. -/
def leave (p : Process) (idx : ℕ) : Process := { p.close (p.mPipefd idx 1) with place := .closed }

end Process

namespace Forking

/-- The call of the constructor. `m_sub_process` is not initialised. -/
def init (processNumber : ℕ) (mPipefd : ℕ → Fin 2 → ℕ) : Forking where
  mProcessNumber := processNumber
  process
    | none => some
      { fds := fun _ => none
        mPipefd := mPipefd
        mIdx := none
        joined := fun _ => false
        i := 0
        place := .loop }
    | some _ => none
  cgi _ := none

def set (s : Forking) (q : Option ℕ) (p : Option Process) : Forking :=
  { s with process := Function.update s.process q p }

def setCgi (s : Forking) (k : ℕ) (c : Option (ℕ × Process)) : Forking :=
  { s with cgi := Function.update s.cgi k c }

lemma set_self {s : Forking} {q : Option ℕ} {p : Option Process} : (s.set q p).process q = p := by
  simp [set]

lemma set_of_ne {s : Forking} {q q' : Option ℕ} {p : Option Process} (h : q' ≠ q) :
    (s.set q p).process q' = s.process q' := by
  simp [set, h]

inductive Event
  | socketpair (fd₀ fd₁ : ℕ)
  | fork
  | goOn
  | enter (j : ℕ)
  | join (j : ℕ)
  | leave (j : ℕ)
  /-- The parent or a worker ends, where it may be. -/
  | exit (q : Option ℕ)
  /-- `fork()` in `cgi_conn::process` of the worker `j`. -/
  | cgi (j k : ℕ)
  /-- A CGI process closes a descriptor, `STDIN_FILENO` to begin with. -/
  | cgiClose (k fd : ℕ)
  | cgiExit (k : ℕ)

inductive Step : Forking → Event → Forking → Prop
  | socketpair {s : Forking} {p : Process} {fd₀ fd₁ : ℕ} :
      s.process none = some p → p.place = .loop → p.i < s.mProcessNumber → p.fds fd₀ = none →
      p.fds fd₁ = none → fd₀ ≠ fd₁ →
        Step s (.socketpair fd₀ fd₁) (s.set none (some (p.socketpair fd₀ fd₁)))
  | fork {s : Forking} {p : Process} :
      s.process none = some p → p.place = .opened →
        Step s .fork ((s.set none (some p.forked)).set (some p.i) (some p.forked))
  | goOn {s : Forking} {p : Process} :
      s.process none = some p → p.place = .forked → Step s .goOn (s.set none (some p.goOn))
  | enter {s : Forking} {p : Process} {j : ℕ} :
      s.process (some j) = some p → p.place = .forked → Step s (.enter j) (s.set (some j) (some p.enter))
  | join {s : Forking} {p : Process} {j : ℕ} :
      s.process none = some p → p.place = .loop → p.i = s.mProcessNumber → j < s.mProcessNumber →
      p.joined j = false → s.process (some j) = none → Step s (.join j) (s.set none (some (p.join j)))
  | leave {s : Forking} {p : Process} {j idx : ℕ} :
      s.process (some j) = some p → p.place = .run → p.mIdx = some idx →
        Step s (.leave j) (s.set (some j) (some (p.leave idx)))
  | exit {s : Forking} {p : Process} {q : Option ℕ} :
      s.process q = some p → Step s (.exit q) (s.set q none)
  | cgi {s : Forking} {p : Process} {j k : ℕ} :
      s.process (some j) = some p → p.place = .run → s.cgi k = none →
        Step s (.cgi j k) (s.setCgi k (some (j, p)))
  | cgiClose {s : Forking} {c : Process} {i k fd : ℕ} :
      s.cgi k = some (i, c) → Step s (.cgiClose k fd) (s.setCgi k (some (i, c.close fd)))
  | cgiExit {s : Forking} {c : ℕ × Process} {k : ℕ} :
      s.cgi k = some c → Step s (.cgiExit k) (s.setCgi k none)

/-- Some process has the end open. -/
def Open (s : Forking) (e : End) : Prop :=
  (∃ q p fd, s.process q = some p ∧ p.fds fd = some e) ∨
    ∃ k i c fd, s.cgi k = some (i, c) ∧ c.fds fd = some e

end Forking

namespace Process

variable {p : Process} {S S' : End → Prop} {e : End} {fd₀ fd₁ : ℕ}

/-! ### What is open in a process -/

/-- Open are these ends, under the numbers in `m_sub_process`. -/
def Keeps (p : Process) (S : End → Prop) : Prop :=
  ∀ fd e, p.fds fd = some e ↔ S e ∧ fd = p.mPipefd e.worker e.side

lemma Keeps.congr (h : p.Keeps S) (hS : ∀ e, S e ↔ S' e) : p.Keeps S' := fun fd e => by
  rw [h fd e, hS]

lemma Keeps.fds_eq (h : p.Keeps S) (he : S e) : p.fds (p.mPipefd e.worker e.side) = some e :=
  (h _ e).mpr ⟨he, rfl⟩

/-- A descriptor closes the end that it was opened for. -/
lemma Keeps.close (h : p.Keeps S) (he : S e) :
    (p.close (p.mPipefd e.worker e.side)).Keeps fun x => S x ∧ x ≠ e := by
  intro fd x
  show Function.update p.fds _ none fd = some x ↔ _ ∧ fd = p.mPipefd x.worker x.side
  by_cases hfd : fd = p.mPipefd e.worker e.side
  · rw [hfd, Function.update_self]
    refine iff_of_false (Option.some_ne_none x).symm ?_
    rintro ⟨⟨hx, hne⟩, hnumber⟩
    have hsame : p.fds (p.mPipefd e.worker e.side) = some x := (h _ x).mpr ⟨hx, hnumber⟩
    exact hne (Option.some_inj.mp (hsame.symm.trans (h.fds_eq he)))
  · rw [Function.update_of_ne hfd, h fd x]
    refine ⟨?_, fun ⟨⟨hx, _⟩, hnumber⟩ => ⟨hx, hnumber⟩⟩
    rintro ⟨hx, rfl⟩
    refine ⟨⟨hx, ?_⟩, rfl⟩
    rintro rfl
    exact hfd rfl

/-- A new pipe gets numbers that are not in use. -/
lemma Keeps.socketpair (h : p.Keeps S) (hS : ∀ e, S e → e.worker ≠ p.i) (h₀ : p.fds fd₀ = none)
    (h₁ : p.fds fd₁ = none) (hne : fd₀ ≠ fd₁) :
    (p.socketpair fd₀ fd₁).Keeps fun x => S x ∨ x.worker = p.i := by
  intro fd x
  show Function.update (Function.update p.fds fd₀ (some ⟨p.i, 0⟩)) fd₁ (some ⟨p.i, 1⟩) fd = some x ↔
    _ ∧ fd = Function.update p.mPipefd p.i ![fd₀, fd₁] x.worker x.side
  obtain ⟨worker, side⟩ := x
  by_cases hworker : worker = p.i
  · subst hworker
    have hold : p.fds fd ≠ some ⟨p.i, side⟩ := fun hfd => hS _ ((h fd _).mp hfd).1 rfl
    rw [Function.update_self]
    by_cases hfd₁ : fd = fd₁
    · subst hfd₁
      fin_cases side <;> simp [hne.symm]
    · by_cases hfd₀ : fd = fd₀
      · subst hfd₀
        fin_cases side <;> simp [hne]
      · simp only [Function.update_of_ne hfd₁, Function.update_of_ne hfd₀]
        refine iff_of_false hold ?_
        fin_cases side <;> simp [hfd₀, hfd₁]
  · have hfree : ∀ {fd'}, p.fds fd' = none → S ⟨worker, side⟩ → fd' ≠ p.mPipefd worker side := by
      rintro fd' hnone hx rfl
      rw [h.fds_eq hx] at hnone
      cases hnone
    dsimp only
    rw [Function.update_of_ne hworker, or_iff_left hworker]
    by_cases hfd₁ : fd = fd₁
    · subst hfd₁
      rw [Function.update_self]
      refine iff_of_false (by simp [Ne.symm hworker]) fun ⟨hx, hnumber⟩ => hfree h₁ hx hnumber
    · rw [Function.update_of_ne hfd₁]
      by_cases hfd₀ : fd = fd₀
      · subst hfd₀
        rw [Function.update_self]
        refine iff_of_false (by simp [Ne.symm hworker]) fun ⟨hx, hnumber⟩ => hfree h₀ hx hnumber
      · rw [Function.update_of_ne hfd₀]
        exact h fd _

/-- Open are some of these ends, under the numbers in `m_sub_process`. -/
def Inherits (p : Process) (S : End → Prop) : Prop :=
  (∀ fd e, p.fds fd = some e → S e ∧ fd = p.mPipefd e.worker e.side) ∧
    ∀ e, S e → p.fds (p.mPipefd e.worker e.side) ≠ some e → p.fds (p.mPipefd e.worker e.side) = none

lemma Keeps.inherits (h : p.Keeps S) : p.Inherits S :=
  ⟨fun fd e hfd => (h fd e).mp hfd, fun _ he hne => absurd (h.fds_eq he) hne⟩

lemma Inherits.close (h : p.Inherits S) (fd : ℕ) : (p.close fd).Inherits S := by
  constructor
  · intro fd' e hfd'
    refine h.1 fd' e ?_
    change Function.update p.fds fd none fd' = some e at hfd'
    rw [Function.update_apply] at hfd'
    split at hfd'
    next => cases hfd'
    next => exact hfd'
  · intro e he
    show Function.update p.fds fd none _ ≠ some e → Function.update p.fds fd none _ = none
    rw [Function.update_apply]
    split
    next => exact fun _ => rfl
    next => exact h.2 e he

/-- What the parent is to have open: the near ends of the pipes of workers whose exit was not handled,
and both ends of the one that it is about to hand on. -/
def OfParent (p : Process) (e : End) : Prop :=
  e.side = 0 ∧ e.worker < p.i ∧ p.joined e.worker = false ∨ e.worker = p.i ∧ p.place ≠ .loop

/-- What the worker `i` is to have open: the near ends of the pipes before it, and of its own pipe
both ends at first, then the far one. -/
def OfWorker (i : ℕ) (p : Process) (e : End) : Prop :=
  e.side = 0 ∧ e.worker < i ∨ e.worker = i ∧ (p.place = .forked ∨ p.place = .run ∧ e.side = 1)

lemma side_eq_one_iff : e.side = 1 ↔ e.side ≠ 0 := by
  obtain ⟨worker, side⟩ := e
  fin_cases side <;> simp

lemma ne_end_iff {i : ℕ} {side : Fin 2} : e ≠ ⟨i, side⟩ ↔ (e.worker = i → e.side ≠ side) := by
  obtain ⟨worker, side'⟩ := e
  simp

end Process

namespace Forking

open Process

variable {s s' : Forking} {p w : Process} {q : Option ℕ} {e : Event} {i j : ℕ}

structure Wired (s : Forking) : Prop where
  parent : ∀ {p}, s.process none = some p → p.Keeps p.OfParent ∧ p.mIdx = none
  joined : ∀ {p j}, s.process none = some p → p.joined j = true →
    p.i = s.mProcessNumber ∧ p.place = .loop
  worker : ∀ {i w}, s.process (some i) = some w → w.Keeps (w.OfWorker i)
  idx : ∀ {i w}, s.process (some i) = some w →
    w.place = .forked ∧ w.i = i ∨ (w.place = .run ∨ w.place = .closed) ∧ w.mIdx = some i
  younger : ∀ {p i w}, s.process none = some p → s.process (some i) = some w →
    i < p.i ∨ i = p.i ∧ p.place = .forked
  cgi : ∀ {k i c}, s.cgi k = some (i, c) → c.place = .run ∧ c.Inherits (c.OfWorker i)

lemma wired_init (processNumber : ℕ) (mPipefd : ℕ → Fin 2 → ℕ) : (init processNumber mPipefd).Wired where
  parent h := by
    cases h
    refine ⟨fun fd e => iff_of_false (by simp) ?_, rfl⟩
    rintro ⟨⟨-, hlt, -⟩ | ⟨-, hplace⟩, -⟩
    · exact absurd hlt (Nat.not_lt_zero _)
    · exact hplace rfl
  joined h hj := by
    cases h
    cases hj
  worker h := by cases h
  idx h := by cases h
  younger _ h := by cases h
  cgi h := by cases h

/-- The parent goes on. -/
lemma Wired.set_parent {p' : Process} (h : s.Wired) (hp : s.process none = some p)
    (hkeeps : p'.Keeps p'.OfParent) (hidx : p'.mIdx = p.mIdx)
    (hjoined : ∀ j, p'.joined j = true → p'.i = s.mProcessNumber ∧ p'.place = .loop)
    (hyounger : ∀ i, i < p.i ∨ i = p.i ∧ p.place = .forked → i < p'.i ∨ i = p'.i ∧ p'.place = .forked) :
    (s.set none (some p')).Wired := by
  constructor
  case parent =>
    rintro _ ⟨⟩
    exact ⟨hkeeps, hidx.trans (h.parent hp).2⟩
  case joined =>
    rintro _ j ⟨⟩ hj
    exact hjoined j hj
  case worker => exact fun hw => h.worker hw
  case idx => exact fun hw => h.idx hw
  case younger =>
    rintro _ i w ⟨⟩ hw
    exact hyounger i (h.younger hp hw)
  case cgi => exact fun hc => h.cgi hc

/-- A worker goes on, or begins. -/
lemma Wired.set_worker {w' : Process} (h : s.Wired) (hkeeps : w'.Keeps (w'.OfWorker i))
    (hidx : w'.place = .forked ∧ w'.i = i ∨ (w'.place = .run ∨ w'.place = .closed) ∧ w'.mIdx = some i)
    (hyounger : ∀ p, s.process none = some p → i < p.i ∨ i = p.i ∧ p.place = .forked) :
    (s.set (some i) (some w')).Wired := by
  have hset : ∀ {k w}, (s.set (some i) (some w')).process (some k) = some w →
      k = i ∧ w = w' ∨ s.process (some k) = some w := by
    intro k w hw
    by_cases hk : k = i
    · subst hk
      rw [set_self] at hw
      cases hw
      exact .inl ⟨rfl, rfl⟩
    · rw [set_of_ne (by simpa using hk)] at hw
      exact .inr hw
  have hnone : (s.set (some i) (some w')).process none = s.process none :=
    set_of_ne (by simp)
  constructor
  case parent => exact fun hp => h.parent (hnone ▸ hp)
  case joined => exact fun hp hj => h.joined (hnone ▸ hp) hj
  case worker =>
    intro k w hw
    rcases hset hw with ⟨rfl, rfl⟩ | hw
    · exact hkeeps
    · exact h.worker hw
  case idx =>
    intro k w hw
    rcases hset hw with ⟨rfl, rfl⟩ | hw
    · exact hidx
    · exact h.idx hw
  case younger =>
    intro p k w hp hw
    rcases hset hw with ⟨rfl, rfl⟩ | hw
    · exact hyounger p (hnone ▸ hp)
    · exact h.younger (hnone ▸ hp) hw
  case cgi => exact fun hc => h.cgi hc

lemma Wired.exit (h : s.Wired) (q : Option ℕ) : (s.set q none).Wired := by
  have hset : ∀ {q' p}, (s.set q none).process q' = some p → s.process q' = some p := by
    intro q' p hp
    by_cases hq : q' = q
    · subst hq
      rw [set_self] at hp
      cases hp
    · rwa [set_of_ne hq] at hp
  exact ⟨fun hp => h.parent (hset hp), fun hp => h.joined (hset hp), fun hw => h.worker (hset hw),
    fun hw => h.idx (hset hw), fun hp hw => h.younger (hset hp) (hset hw), fun hc => h.cgi hc⟩

/-- A CGI process begins, goes on or ends. -/
lemma Wired.setCgi {k : ℕ} {c : Option (ℕ × Process)} (h : s.Wired)
    (hc : ∀ i c', c = some (i, c') → c'.place = .run ∧ c'.Inherits (c'.OfWorker i)) :
    (s.setCgi k c).Wired := by
  refine ⟨fun hp => h.parent hp, fun hp => h.joined hp, fun hw => h.worker hw, fun hw => h.idx hw,
    fun hp hw => h.younger hp hw, fun {k' i c'} hc' => ?_⟩
  change Function.update s.cgi k c k' = some (i, c') at hc'
  rw [Function.update_apply] at hc'
  split at hc'
  next => exact hc i c' hc'
  next => exact h.cgi hc'

/-! ### Steps -/

/-- As long as the constructor runs in the parent, no exit was handled. -/
lemma Wired.not_joined (h : s.Wired) (hp : s.process none = some p) (hplace : p.place ≠ .loop) (j : ℕ) :
    p.joined j = false := by
  by_contra hj
  exact hplace (h.joined hp (by simpa using hj)).2

lemma Wired.socketpair {fd₀ fd₁ : ℕ} (h : s.Wired) (hp : s.process none = some p)
    (hplace : p.place = .loop) (hi : p.i < s.mProcessNumber) (h₀ : p.fds fd₀ = none)
    (h₁ : p.fds fd₁ = none) (hne : fd₀ ≠ fd₁) : (s.set none (some (p.socketpair fd₀ fd₁))).Wired := by
  have hnot : ∀ j, p.joined j ≠ true := fun j hj => by
    have hend := (h.joined hp hj).1
    omega
  have hnew : ∀ e, p.OfParent e → e.worker ≠ p.i := by
    rintro e (⟨-, hlt, -⟩ | ⟨-, hloop⟩)
    · exact hlt.ne
    · exact absurd hplace hloop
  refine h.set_parent hp (((h.parent hp).1.socketpair hnew h₀ h₁ hne).congr fun e => ?_) rfl
    (fun j hj => absurd hj (hnot j)) fun i hi => ?_
  · simp [OfParent, Process.socketpair, hplace]
  · simpa [Process.socketpair, hplace] using hi

lemma Wired.fork (h : s.Wired) (hp : s.process none = some p) (hplace : p.place = .opened) :
    ((s.set none (some p.forked)).set (some p.i) (some p.forked)).Wired := by
  have hnot := h.not_joined hp (by simp [hplace])
  have hkeeps := (h.parent hp).1
  have hparent : (s.set none (some p.forked)).Wired := by
    refine h.set_parent hp (hkeeps.congr fun e => ?_) rfl (fun j hj => ?_) fun i hi => ?_
    · simp [OfParent, forked, hplace]
    · rw [show p.forked.joined j = p.joined j from rfl, hnot j] at hj
      cases hj
    · simpa [forked, hplace] using Or.inl hi
  refine hparent.set_worker (hkeeps.congr fun e => ?_) (.inl ⟨rfl, rfl⟩) ?_
  · simp [OfParent, OfWorker, forked, hplace, hnot]
  · intro p' hp'
    rw [set_self] at hp'
    cases hp'
    exact .inr ⟨rfl, rfl⟩

lemma Wired.goOn (h : s.Wired) (hp : s.process none = some p) (hplace : p.place = .forked) :
    (s.set none (some p.goOn)).Wired := by
  have hnot := h.not_joined hp (by simp [hplace])
  have hfar : p.OfParent ⟨p.i, 1⟩ := .inr ⟨rfl, by simp [hplace]⟩
  refine h.set_parent hp (((h.parent hp).1.close hfar).congr fun e => ?_) rfl (fun j hj => ?_) fun i hi => ?_
  · simp only [OfParent, Process.goOn, Process.close, hplace, hnot, ne_end_iff, ne_eq, side_eq_one_iff]
    by_cases hside : e.side = 0
    · simp [hside]
      omega
    · simp [hside]
  · rw [show p.goOn.joined j = p.joined j from rfl, hnot j] at hj
    cases hj
  · simp only [Process.goOn]
    omega

lemma Wired.enter (h : s.Wired) (hw : s.process (some j) = some w) (hplace : w.place = .forked) :
    (s.set (some j) (some w.enter)).Wired := by
  have hj : w.i = j := by
    rcases h.idx hw with ⟨-, hi⟩ | ⟨hrun, -⟩
    · exact hi
    · simp [hplace] at hrun
  have hnear : w.OfWorker j ⟨w.i, 0⟩ := .inr ⟨hj, .inl hplace⟩
  refine h.set_worker (((h.worker hw).close hnear).congr fun e => ?_) (.inr ⟨.inl rfl, ?_⟩)
    fun p hp => h.younger hp hw
  · simp only [OfWorker, Process.enter, Process.close, hplace, hj, ne_end_iff, ne_eq]
    by_cases hside : e.side = 0
    · simp [hside]
      omega
    · simp [hside, side_eq_one_iff]
  · rw [← hj]
    rfl

lemma Wired.join (h : s.Wired) (hp : s.process none = some p) (hplace : p.place = .loop)
    (hi : p.i = s.mProcessNumber) (hj : j < s.mProcessNumber) (hjoined : p.joined j = false) :
    (s.set none (some (p.join j))).Wired := by
  have hlt : j < p.i := by omega
  have hnear : p.OfParent ⟨j, 0⟩ := .inl ⟨rfl, hlt, hjoined⟩
  refine h.set_parent hp (((h.parent hp).1.close hnear).congr fun e => ?_) rfl
    (fun _ _ => ⟨hi, hplace⟩) fun _ hlt => hlt
  simp only [OfParent, Process.join, Process.close, hplace, ne_end_iff, ne_eq]
  by_cases hworker : e.worker = j
  · simp only [hworker, Function.update_self, forall_const, Bool.true_eq_false, and_false, not_true_eq_false,
      or_false, iff_false, not_and, not_not]
    exact fun hside => hside.1
  · simp [hworker]

lemma Wired.leave {idx : ℕ} (h : s.Wired) (hw : s.process (some j) = some w) (hplace : w.place = .run)
    (hidx : w.mIdx = some idx) : (s.set (some j) (some (w.leave idx))).Wired := by
  have hj : w.mIdx = some j := by
    rcases h.idx hw with ⟨hforked, -⟩ | ⟨-, hj⟩
    · simp [hplace] at hforked
    · exact hj
  obtain rfl : idx = j := Option.some_inj.mp (hidx.symm.trans hj)
  have hfar : w.OfWorker idx ⟨idx, 1⟩ := .inr ⟨rfl, .inr ⟨hplace, rfl⟩⟩
  refine h.set_worker (((h.worker hw).close hfar).congr fun e => ?_) (.inr ⟨.inr rfl, hidx⟩)
    fun p hp => h.younger hp hw
  simp only [OfWorker, Process.leave, Process.close, hplace, ne_end_iff, ne_eq, side_eq_one_iff]
  by_cases hside : e.side = 0
  · simp [hside]
  · simp [hside]

lemma Step.wired (hs : Step s e s') (h : s.Wired) : s'.Wired := by
  cases hs with
  | socketpair hp hplace hi h₀ h₁ hne => exact h.socketpair hp hplace hi h₀ h₁ hne
  | fork hp hplace => exact h.fork hp hplace
  | goOn hp hplace => exact h.goOn hp hplace
  | enter hw hplace => exact h.enter hw hplace
  | join hp hplace hi hj hjoined => exact h.join hp hplace hi hj hjoined
  | leave hw hplace hidx => exact h.leave hw hplace hidx
  | exit => exact h.exit _
  | cgi hw hplace =>
    refine h.setCgi fun i c hc => ?_
    cases hc
    exact ⟨hplace, (h.worker hw).inherits⟩
  | cgiClose hc =>
    obtain ⟨hplace, hinherits⟩ := h.cgi hc
    refine h.setCgi fun i c' hc' => ?_
    cases hc'
    exact ⟨hplace, hinherits.close _⟩
  | cgiExit => exact h.setCgi fun _ _ hc => by cases hc

lemma run_wired {processNumber : ℕ} {mPipefd : ℕ → Fin 2 → ℕ} {es : List Event}
    (hrun : Trace Step (init processNumber mPipefd) es s) : s.Wired :=
  hrun.invariant (fun _ _ _ h hs => hs.wired h) (wired_init processNumber mPipefd)

/-! ### Runs -/

/-- In every run, whatever numbers the system gives out: `m_idx` is -1 in the parent and `i` in the
worker `i`, the descriptor `m_sub_process[m_idx].m_pipefd[1]` that `run_child` reads is the far end of its
own pipe, and `m_sub_process[j].m_pipefd[0]`, to which the parent sends, the near end of the pipe of `j`;
nothing else of the pipes is open but the near ends of the earlier workers. -/
theorem run_pipes {processNumber : ℕ} {mPipefd : ℕ → Fin 2 → ℕ} {es : List Event}
    (hrun : Trace Step (init processNumber mPipefd) es s) :
    (∀ i w, s.process (some i) = some w → w.place = .run → w.mIdx = some i ∧
      ∀ fd e, w.fds fd = some e ↔
        (e.side = 0 ∧ e.worker < i ∨ e = ⟨i, 1⟩) ∧ fd = w.mPipefd e.worker e.side) ∧
    (∀ p, s.process none = some p → p.place = .loop → p.mIdx = none ∧
      ∀ fd e, p.fds fd = some e ↔
        (e.side = 0 ∧ e.worker < p.i ∧ p.joined e.worker = false) ∧ fd = p.mPipefd e.worker e.side) := by
  have h := run_wired hrun
  refine ⟨fun i w hw hplace => ⟨?_, ?_⟩, fun p hp hplace => ⟨(h.parent hp).2, ?_⟩⟩
  · rcases h.idx hw with ⟨hforked, -⟩ | ⟨-, hi⟩
    · simp [hplace] at hforked
    · exact hi
  · refine (h.worker hw).congr fun e => ?_
    obtain ⟨worker, side⟩ := e
    simp [OfWorker, hplace]
  · refine (h.parent hp).1.congr fun e => ?_
    simp [OfParent, hplace]

/-- The parent has forked one of two workers, and handed on its pipe. -/
theorem run_pipes_first : ∃ (s : Forking) (w : Process),
    Trace Step (init 2 fun _ _ => 0) [.socketpair 5 6, .fork, .enter 0, .goOn] s ∧
      s.process (some 0) = some w ∧ w.mIdx = some 0 ∧ w.fds 6 = some ⟨0, 1⟩ ∧ w.fds 5 = none := by
  have hrun : Trace Step (init 2 fun _ _ => 0) [.socketpair 5 6, .fork, .enter 0, .goOn] _ :=
    .cons (.socketpair rfl rfl (by decide) rfl rfl (by decide))
      (.cons (.fork rfl rfl) (.cons (.enter rfl rfl) (.cons (.goOn rfl rfl) (.nil _))))
  have hpipes := (run_pipes hrun).1 0 _ rfl rfl
  exact ⟨_, _, hrun, rfl, hpipes.1, (hpipes.2 6 ⟨0, 1⟩).mpr ⟨.inr rfl, rfl⟩, rfl⟩

/-- For a worker in `run_child`, `recv` on its pipe finds the end of the stream if and only if the parent
has ended or has closed the pipe, every later worker has ended, and every CGI process of a later worker
has closed what it has inherited of the pipe. -/
theorem run_endOfStream_iff {processNumber : ℕ} {mPipefd : ℕ → Fin 2 → ℕ} {es : List Event}
    (hrun : Trace Step (init processNumber mPipefd) es s) (hw : s.process (some j) = some w)
    (hplace : w.place = .run) :
    ¬ s.Open ⟨j, 0⟩ ↔
      (∀ p, s.process none = some p → p.joined j = true) ∧ (∀ i, j < i → s.process (some i) = none) ∧
        ∀ k i c, s.cgi k = some (i, c) → j < i → c.fds (c.mPipefd j 0) = none := by
  have h := run_wired hrun
  constructor
  · intro hnot
    refine ⟨fun p hp => ?_, fun i hi => ?_, fun k i c hc hi => ?_⟩
    · by_contra hjoined
      have hnear : p.OfParent ⟨j, 0⟩ := by
        rcases h.younger hp hw with hlt | ⟨heq, hforked⟩
        · exact .inl ⟨rfl, hlt, by simpa using hjoined⟩
        · exact .inr ⟨heq, by simp [hforked]⟩
      exact hnot (.inl ⟨none, p, _, hp, (h.parent hp).1.fds_eq hnear⟩)
    · by_contra hsome
      obtain ⟨v, hv⟩ := Option.ne_none_iff_exists'.mp hsome
      have hnear : v.OfWorker i ⟨j, 0⟩ := .inl ⟨rfl, hi⟩
      exact hnot (.inl ⟨some i, v, _, hv, (h.worker hv).fds_eq hnear⟩)
    · have hnear : c.OfWorker i ⟨j, 0⟩ := .inl ⟨rfl, hi⟩
      exact (h.cgi hc).2.2 ⟨j, 0⟩ hnear fun hfd => hnot (.inr ⟨k, i, c, _, hc, hfd⟩)
  · rintro ⟨hparent, hlater, hcgi⟩ (⟨q, p, fd, hp, hfd⟩ | ⟨k, i, c, fd, hc, hfd⟩)
    · cases q with
      | none =>
        have hjoined := hparent p hp
        rcases (((h.parent hp).1 fd _).mp hfd).1 with ⟨-, -, hnot⟩ | ⟨-, hloop⟩
        · simp [hjoined] at hnot
        · exact hloop (h.joined hp hjoined).2
      | some i =>
        rcases (((h.worker hp) fd _).mp hfd).1 with ⟨-, hlt⟩ | ⟨heq, hown⟩
        · simp [hlater i hlt] at hp
        · cases heq
          cases hw.symm.trans hp
          simp [hplace] at hown
    · obtain ⟨hrunning, hinherits, -⟩ := h.cgi hc
      obtain ⟨⟨-, hlt⟩ | ⟨-, hown⟩, rfl⟩ := hinherits fd _ hfd
      · rw [hcgi k i c hc hlt] at hfd
        cases hfd
      · simp [hrunning] at hown

/-- The parent and the second worker have ended, and the first one does not find it out: a CGI process
of the second one has its pipe. -/
theorem run_endOfStream_orphan : ∃ (s : Forking) (w : Process),
    Trace Step (init 2 fun _ _ => 0) [.socketpair 5 6, .fork, .enter 0, .goOn, .socketpair 6 7, .fork, .enter 1,
      .goOn, .cgi 1 0, .cgiClose 0 0, .exit (some 1), .exit none] s ∧
      s.process none = none ∧ s.process (some 1) = none ∧ s.process (some 0) = some w ∧
        w.place = .run ∧ s.Open ⟨0, 0⟩ := by
  have hrun : Trace Step (init 2 fun _ _ => 0) [.socketpair 5 6, .fork, .enter 0, .goOn, .socketpair 6 7,
      .fork, .enter 1, .goOn, .cgi 1 0, .cgiClose 0 0, .exit (some 1), .exit none] _ :=
    .cons (.socketpair rfl rfl (by decide) rfl rfl (by decide))
      (.cons (.fork rfl rfl) (.cons (.enter rfl rfl) (.cons (.goOn rfl rfl)
      (.cons (.socketpair rfl rfl (by decide) rfl rfl (by decide))
      (.cons (.fork rfl rfl) (.cons (.enter rfl rfl) (.cons (.goOn rfl rfl)
      (.cons (.cgi rfl rfl rfl) (.cons (.cgiClose rfl)
      (.cons (.exit rfl) (.cons (.exit rfl) (.nil _))))))))))))
  refine ⟨_, _, hrun, rfl, rfl, rfl, rfl, ?_⟩
  by_contra hnot
  have hcgi := ((run_endOfStream_iff hrun rfl rfl).mp hnot).2.2 0 1 _ rfl Nat.one_pos
  cases hcgi

/-- For the parent, `send` on the pipe of a worker finds nobody if and only if the worker has ended or
has closed its pipe, and every CGI process that it has forked has closed what it has inherited of
it. -/
theorem run_broken_iff {processNumber : ℕ} {mPipefd : ℕ → Fin 2 → ℕ} {es : List Event}
    (hrun : Trace Step (init processNumber mPipefd) es s) (hp : s.process none = some p)
    (hj : j < p.i) :
    ¬ s.Open ⟨j, 1⟩ ↔
      (∀ w, s.process (some j) = some w → w.place = .closed) ∧
        ∀ k c, s.cgi k = some (j, c) → c.fds (c.mPipefd j 1) = none := by
  have h := run_wired hrun
  constructor
  · intro hnot
    refine ⟨fun w hw => ?_, fun k c hc => ?_⟩
    · by_contra hplace
      have hfar : w.OfWorker j ⟨j, 1⟩ := by
        rcases h.idx hw with ⟨hforked, -⟩ | ⟨hrun | hclosed, -⟩
        · exact .inr ⟨rfl, .inl hforked⟩
        · exact .inr ⟨rfl, .inr ⟨hrun, rfl⟩⟩
        · exact absurd hclosed hplace
      exact hnot (.inl ⟨some j, w, _, hw, (h.worker hw).fds_eq hfar⟩)
    · have hfar : c.OfWorker j ⟨j, 1⟩ := .inr ⟨rfl, .inr ⟨(h.cgi hc).1, rfl⟩⟩
      exact (h.cgi hc).2.2 ⟨j, 1⟩ hfar fun hfd => hnot (.inr ⟨k, j, c, _, hc, hfd⟩)
  · rintro ⟨hclosed, hcgi⟩ (⟨q, v, fd, hv, hfd⟩ | ⟨k, i, c, fd, hc, hfd⟩)
    · cases q with
      | none =>
        cases hp.symm.trans hv
        rcases (((h.parent hp).1 fd _).mp hfd).1 with ⟨hside, -⟩ | ⟨heq, -⟩
        · cases hside
        · exact hj.ne heq
      | some i =>
        rcases (((h.worker hv) fd _).mp hfd).1 with ⟨hside, -⟩ | ⟨heq, hopen⟩
        · cases hside
        · cases heq
          simp [hclosed v hv] at hopen
    · obtain ⟨⟨hside, -⟩ | ⟨heq, -⟩, rfl⟩ := (h.cgi hc).2.1 fd _ hfd
      · cases hside
      · cases heq
        rw [hcgi k c hc] at hfd
        cases hfd

/-- A worker has ended, and the CGI process that it has forked as well. -/
theorem run_broken_first : ∃ s : Forking,
    Trace Step (init 1 fun _ _ => 0)
      [.socketpair 5 6, .fork, .enter 0, .goOn, .cgi 0 0, .exit (some 0), .cgiExit 0] s ∧
        ¬ s.Open ⟨0, 1⟩ := by
  have hrun : Trace Step (init 1 fun _ _ => 0)
      [.socketpair 5 6, .fork, .enter 0, .goOn, .cgi 0 0, .exit (some 0), .cgiExit 0] _ :=
    .cons (.socketpair rfl rfl (by decide) rfl rfl (by decide))
      (.cons (.fork rfl rfl) (.cons (.enter rfl rfl) (.cons (.goOn rfl rfl)
      (.cons (.cgi rfl rfl rfl) (.cons (.exit rfl) (.cons (.cgiExit rfl) (.nil _)))))))
  refine ⟨_, hrun, (run_broken_iff hrun rfl (by decide)).mpr
    ⟨fun w hw => (by cases hw), fun k c hc => ?_⟩⟩
  simp [setCgi, set, init] at hc

end Forking

end LinuxServer.ProcessPool
