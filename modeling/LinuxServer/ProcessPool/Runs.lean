import LinuxServer.Core.Places
import LinuxServer.ProcessPool.Basic

/-!
# Runs of the process pool

Each process handles one item for each event, so the account of `Core.Descriptor` can be kept for the
listening socket and for every pipe: an arrival that merges with a pending event strands an item
for good, and nothing else does. So when all is quiet, every connection was accepted and every
message was read exactly if no arrival of the run merged.
-/

namespace LinuxServer

open Core

/-- The messages a worker is about to read. -/
def WorkerAt.reads : WorkerAt → ℕ
  | .recv => 1
  | _ => 0

/-- The connections a worker is about to accept. -/
def WorkerAt.accepts : WorkerAt → ℕ
  | .accept => 1
  | _ => 0

namespace ProcessPool

variable {n : ℕ} {s s' : ProcessPool n} {e : Event n} {es : List (Event n)} {i : Fin n}

/-- The connections that the worker `i` will still accept: one for each message in its pipe, and
one when it has read a message. -/
def owed (s : ProcessPool n) (i : Fin n) : ℕ :=
  (s.pipe i).items.length + (s.worker i).accepts

/-- The account of the descriptors, with what is stranded on the listening socket and in each pipe. -/
structure Balanced (s : ProcessPool n) (l : ℕ × (Fin n → ℕ)) : Prop where
  listen : s.listen.Owes (s.parentAt.toNat + ∑ i, s.owed i) l.1
  pipe : ∀ i, (s.pipe i).Owes (s.worker i).reads (l.2 i)
  alive : ∀ i, s.mPid i ≠ -1
  connections : s.accepted.map Prod.fst ++ s.listen.items = List.range s.arrived

variable {l : ℕ × (Fin n → ℕ)}

/-! ### The account of one step -/

lemma Balanced.arrive (h : s.Balanced l) :
    Balanced { s with listen := s.listen.arrive s.arrived, arrived := s.arrived + 1 }
      (l.1 + s.listen.event.toNat, l.2) where
  listen := h.listen.arrive _
  pipe := h.pipe
  alive := h.alive
  connections := by
    rw [List.range_succ, ← h.connections, List.append_assoc]
    rfl

lemma Balanced.parentWake (h : s.Balanced l) (hat : s.parentAt = false)
    (he : s.listen.event = true) :
    Balanced { s with listen := s.listen.wake, parentAt := true } l where
  listen := by
    have hwake := h.listen.wake he
    rw [hat, Bool.toNat_false, zero_add, add_comm] at hwake
    exact hwake
  pipe := h.pipe
  alive := h.alive
  connections := h.connections

lemma Balanced.wake (h : s.Balanced l) (hat : s.worker i = .epollWait)
    (he : (s.pipe i).event = true) : (s.wake i).Balanced l where
  listen := by
    have howed : (s.wake i).owed = s.owed := by
      funext j
      by_cases hj : j = i
      · subst hj
        simp [owed, ProcessPool.wake, Descriptor.wake, hat, WorkerAt.accepts]
      · simp [owed, ProcessPool.wake, hj]
    rw [howed]
    exact h.listen
  pipe j := by
    by_cases hj : j = i
    · subst hj
      have hpipe := h.pipe j
      rw [hat] at hpipe
      simpa [ProcessPool.wake, WorkerAt.reads] using hpipe.wake he
    · simpa [ProcessPool.wake, hj] using h.pipe j
  alive := h.alive
  connections := h.connections

/-- A message read is a connection to accept. -/
lemma Balanced.recv (h : s.Balanced l) (hat : s.worker i = .recv) : (s.recv i).Balanced l where
  listen := by
    have hpipe := h.pipe i
    rw [hat] at hpipe
    have howed : (s.recv i).owed = s.owed := by
      funext j
      by_cases hj : j = i
      · subst hj
        have hlen := List.length_pos_iff.mpr hpipe.ne_nil
        simp only [owed, ProcessPool.recv, Function.update_self, Descriptor.read, List.length_tail, hat,
          WorkerAt.accepts]
        omega
      · simp [owed, ProcessPool.recv, hj]
    rw [howed]
    exact h.listen
  pipe j := by
    by_cases hj : j = i
    · subst hj
      have hpipe := h.pipe j
      rw [hat] at hpipe
      simpa [ProcessPool.recv, WorkerAt.reads] using hpipe.read
    · simpa [ProcessPool.recv, hj] using h.pipe j
  alive := h.alive
  connections := h.connections

lemma Balanced.accept (h : s.Balanced l) (hat : s.worker i = .accept) : (s.accept i).Balanced l where
  listen := by
    have hsum := sum_of_ne (f := s.owed) (g := (s.accept i).owed) i fun j hj => by
      simp [owed, ProcessPool.accept, hj]
    have hself : (s.accept i).owed i + 1 = s.owed i := by
      simp [owed, ProcessPool.accept, hat, WorkerAt.accepts]
    have heq : s.parentAt.toNat + ∑ j, s.owed j =
        (s.parentAt.toNat + ∑ j, (s.accept i).owed j) + 1 := by omega
    have hlisten := h.listen
    rw [heq] at hlisten
    exact hlisten.read
  pipe j := by
    by_cases hj : j = i
    · subst hj
      have hpipe := h.pipe j
      rw [hat] at hpipe
      simpa [ProcessPool.accept, WorkerAt.reads] using hpipe
    · simpa [ProcessPool.accept, hj] using h.pipe j
  alive := h.alive
  connections := by
    refine Eq.trans ?_ h.connections
    cases hitems : s.listen.items <;>
      simp [ProcessPool.accept, Descriptor.read, hitems]

/-! ### Quiet states -/

/-- When all is quiet, what was not served is what is stranded. -/
theorem Balanced.served_iff (h : s.Balanced l) (hq : s.Quiescent) :
    s.Served ↔ l = (0, fun _ => 0) := by
  have hpipe : ∀ i, (s.pipe i).items.length = l.2 i := by
    intro i
    have hp := h.pipe i
    rw [hq.worker i] at hp
    exact hp.length_eq (hq.pipe i)
  have hlisten : s.listen.items.length = ∑ i, l.2 i + l.1 := by
    have hl := h.listen
    have howed : s.owed = l.2 := funext fun i => by simp [owed, hq.worker i, hpipe i, WorkerAt.accepts]
    rw [Descriptor.Owes, hq.listen, hq.parent, howed] at hl
    simpa using hl
  have haccepted : (∀ c < s.arrived, ∃ i, (c, i) ∈ s.accepted) ↔ s.listen.items = [] := by
    constructor
    · intro hall
      apply List.eq_nil_iff_forall_not_mem.mpr
      intro c hc
      have hrange : c ∈ List.range s.arrived := h.connections ▸ List.mem_append_right _ hc
      obtain ⟨i, hi⟩ := hall c (List.mem_range.mp hrange)
      have hnd : (s.accepted.map Prod.fst ++ s.listen.items).Nodup :=
        h.connections ▸ List.nodup_range
      exact (List.nodup_append.mp hnd).2.2 c (List.mem_map_of_mem hi) c hc rfl
    · intro hnil c hc
      have hmem := List.mem_range.mpr hc
      rw [← h.connections, hnil, List.append_nil] at hmem
      obtain ⟨⟨c', i⟩, hi, rfl⟩ := List.mem_map.mp hmem
      exact ⟨i, hi⟩
  constructor
  · rintro ⟨hall, hempty⟩
    rw [haccepted] at hall
    rw [hall, List.length_nil] at hlisten
    exact Prod.ext (by simp only; omega) (funext fun i => by rw [← hpipe i, hempty i]; rfl)
  · rintro rfl
    refine ⟨haccepted.mpr ?_, fun i => List.length_eq_zero_iff.mp (hpipe i)⟩
    exact List.length_eq_zero_iff.mp (by simpa using hlisten)

section Steps

variable [NeZero n]

/-! ### The round robin -/

lemma roundRobinLoop_spec (halive : ∀ i, s.mPid i ≠ -1) : ∀ (fuel : ℕ) (i : Fin n), 0 < fuel →
    (i + fuel) % n = s.subProcessCounter → s.roundRobinLoop fuel i = some s.subProcessCounter
  | 0, _, hpos, _ => absurd hpos (lt_irrefl 0)
  | fuel + 1, i, _, hi => by
    have hi' : ((i + 1 : Fin n) + fuel) % n = s.subProcessCounter := by
      rw [Fin.val_add, Fin.val_one', Nat.add_mod_mod, Nat.mod_add_mod, ← hi]
      congr 1
      omega
    rw [roundRobinLoop, if_neg (halive i)]
    split
    next hne =>
      refine roundRobinLoop_spec halive fuel (i + 1) (Nat.pos_of_ne_zero ?_) hi'
      rintro rfl
      rw [add_zero, Nat.mod_eq_of_lt (i + 1).isLt] at hi'
      exact hne (Fin.ext hi')
    next heq => rw [not_not.mp heq]

/-- With every worker alive the parent sends to the next one in turn. -/
lemma roundRobin_eq (halive : ∀ i, s.mPid i ≠ -1) : s.roundRobin = some s.subProcessCounter :=
  roundRobinLoop_spec halive n _ (Nat.pos_of_ne_zero (NeZero.ne n))
    (by rw [Nat.add_mod_right, Nat.mod_eq_of_lt (Fin.isLt _)])

lemma balanced_init {mPid : Fin n → ℤ} (halive : ∀ i, mPid i ≠ -1) :
    (init mPid).Balanced (0, fun _ => 0) :=
  ⟨by simp [init, owed, Descriptor.Owes, Descriptor.empty, WorkerAt.accepts], fun _ => rfl, halive, rfl⟩

/-- The parent's message takes the place of the event that woke it. -/
lemma Balanced.send (h : s.Balanced l) (hat : s.parentAt = true) (i : Fin n) :
    (s.send i).Balanced (l.1, Function.update l.2 i (l.2 i + (s.pipe i).event.toNat)) where
  listen := by
    have hsum := sum_of_ne (f := s.owed) (g := (s.send i).owed) i fun j hj => by
      simp [owed, ProcessPool.send, hj]
    have hself : (s.send i).owed i = s.owed i + 1 := by
      simp only [owed, ProcessPool.send, Function.update_self, Descriptor.arrive, List.length_append,
        List.length_singleton]
      omega
    have hlisten := h.listen
    rw [hat, Bool.toNat_true] at hlisten
    have heq : (s.send i).parentAt.toNat + ∑ j, (s.send i).owed j = 1 + ∑ j, s.owed j := by
      show 0 + _ = _
      omega
    rwa [heq]
  pipe j := by
    by_cases hj : j = i
    · subst hj
      simpa [ProcessPool.send] using (h.pipe j).arrive newConn
    · simpa [ProcessPool.send, hj] using h.pipe j
  alive := h.alive
  connections := h.connections

/-- Every step keeps the account, and it strands an item exactly when an arrival merges. -/
theorem Step.balanced (h : s.Balanced l) (hs : Step s e s') :
    ∃ l', s'.Balanced l' ∧ l ≤ l' ∧ (s.NoMerge e ↔ l' = l) := by
  cases e with
  | arrive =>
    cases hs
    refine ⟨_, h.arrive, ⟨Nat.le_add_right _ _, le_rfl⟩, ?_⟩
    rw [NoMerge, Prod.ext_iff]
    cases s.listen.event <;> simp
  | parentWake =>
    rw [Step, next] at hs
    split at hs
    next hcond =>
      cases hs
      exact ⟨l, h.parentWake hcond.2.1 hcond.2.2, le_rfl, iff_of_true trivial rfl⟩
    next => cases hs
  | parentSend =>
    rw [Step, next] at hs
    split at hs
    next hat =>
      rw [runParent, roundRobin_eq h.alive, Option.bind_eq_bind, Option.bind_some,
        if_neg (h.alive _)] at hs
      cases hs
      refine ⟨_, h.send hat _, ⟨le_rfl, ?_⟩, ?_⟩
      · intro j
        by_cases hj : j = s.subProcessCounter <;> simp [Function.update, hj]
      · simp only [NoMerge, roundRobin_eq h.alive, Option.some.injEq, forall_eq', Prod.ext_iff,
          true_and]
        cases (s.pipe s.subProcessCounter).event <;> simp
    next => cases hs
  | workerWake i =>
    rw [Step, next] at hs
    split at hs
    next hcond =>
      cases hs
      exact ⟨l, h.wake hcond.1 hcond.2, le_rfl, iff_of_true trivial rfl⟩
    next => cases hs
  | workerRecv i =>
    rw [Step, next] at hs
    split at hs
    next hat =>
      cases hs
      exact ⟨l, h.recv hat, le_rfl, iff_of_true trivial rfl⟩
    next => cases hs
  | workerAccept i =>
    rw [Step, next] at hs
    split at hs
    next hat =>
      cases hs
      exact ⟨l, h.accept hat, le_rfl, iff_of_true trivial rfl⟩
    next => cases hs

/-- In every run with all workers alive, when no event is pending nor being handled, every connection
was accepted and every message read if and only if no arrival of the run merged with a pending
event. -/
theorem run_served_iff {mPid : Fin n → ℤ} (halive : ∀ i, mPid i ≠ -1)
    (hrun : Trace Step (init mPid) es s) (hq : s.Quiescent) :
    s.Served ↔ Trace (fun s e s' => Step s e s' ∧ s.NoMerge e) (init mPid) es s := by
  obtain ⟨l, hl, -, hiff⟩ := hrun.ledger (fun s e s₁ s₂ h₁ h₂ => Option.some.inj (h₁.symm.trans h₂))
    (fun s l e s' h hs => hs.balanced h) (balanced_init halive)
  rw [hl.served_iff hq, hiff]

/-- One connection, handed to the first of two workers. -/
theorem run_served_one :
    ∃ s : ProcessPool 2, s.Quiescent ∧ s.accepted = [(0, 0)] ∧ s.Served :=
  have hrun : Trace (fun s e s' => Step s e s' ∧ s.NoMerge e) (init fun _ : Fin 2 => 7)
      [.arrive, .parentWake, .parentSend, .workerWake 0, .workerRecv 0, .workerAccept 0] _ :=
    .cons ⟨rfl, rfl⟩ (.cons ⟨rfl, trivial⟩ (.cons ⟨rfl, fun _ _ => rfl⟩ (.cons ⟨rfl, trivial⟩
      (.cons ⟨rfl, trivial⟩ (.cons ⟨rfl, trivial⟩ (.nil _))))))
  have hq : Quiescent _ := ⟨rfl, rfl, by decide, by decide⟩
  ⟨_, hq, rfl, (run_served_iff (fun _ => by decide) (hrun.mono fun _ _ _ h => h.1) hq).mpr hrun⟩

/-- Two connections arrive before the parent wakes up: it sends one message, and the second one is
left on the listening socket with no event to come. -/
theorem run_strands_connection :
    ∃ (s : ProcessPool 2) (es : List (Event 2)), Trace Step (init fun _ => 7) es s ∧ s.Quiescent ∧
      s.listen.items = [1] ∧ ¬ s.Served :=
  ⟨_, [.arrive, .arrive, .parentWake, .parentSend, .workerWake 0, .workerRecv 0, .workerAccept 0],
    .cons rfl (.cons rfl (.cons rfl (.cons rfl (.cons rfl (.cons rfl (.cons rfl (.nil _))))))),
    ⟨rfl, rfl, by decide, by decide⟩, rfl, fun h => absurd (h.accepted 1 (by decide)) (by decide)⟩

end Steps

end ProcessPool

end LinuxServer
