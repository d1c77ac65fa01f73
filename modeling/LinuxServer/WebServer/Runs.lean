import LinuxServer.WebServer.Basic

/-!
# Runs of the web server

A connection is handed on: from `epoll` to the batch, from the batch to `epoll` or the queue, from
the queue to a worker, from the worker to `epoll`. Two steps break the chain. `append` refuses a
request when the queue is full, and the loop does not look at what it returns. And a worker that has
closed its descriptor is still in `process` of the connection, while `accept` may give out the number
again.
-/

namespace LinuxServer.WebServer

open Core

variable {W : Type*} [Fintype W] {s s' : WebServer W} {k fd : ℕ} {rest : List Ready}

/-! ### The holders of a connection, one by one -/

def armedAt (s : WebServer W) (k : ℕ) : ℕ := if k ∈ s.armed then 1 else 0

def batchAt (s : WebServer W) (k : ℕ) : ℕ := (s.batch.filterMap Ready.fd?).count k

def queueAt (s : WebServer W) (k : ℕ) : ℕ := s.pool.workqueue.count (some k)

def workersAt (s : WebServer W) (k : ℕ) : ℕ := countAt (Processing k) s.pool.worker

lemma owners_eq (s : WebServer W) (k : ℕ) :
    s.owners k = s.armedAt k + s.batchAt k + s.queueAt k + s.workersAt k := rfl

/-- What holds of the connection `k`: an open one has one owner; a closed one is held by nothing but a
worker, which is at the end of `process`. -/
structure OwnedAt (s : WebServer W) (k : ℕ) : Prop where
  one : k ∈ s.fds → s.owners k = 1
  gone : k ∉ s.fds → s.owners k = s.workersAt k ∧ s.workersAt k ≤ 1
  mSockfd : k ∈ s.fds → s.mSockfd k = some k
  place : ∀ w, s.pool.worker w = .process k → (s.place w = .read ↔ k ∈ s.fds)
  unset : ∀ w, s.pool.worker w = .process k → s.place w = .modFd → s.mSockfd k = none

/-- Nothing of the connection `k` is changed, but that it may be handed on. -/
structure SameAt (s s' : WebServer W) (k : ℕ) : Prop where
  fds : k ∈ s'.fds ↔ k ∈ s.fds
  owners : s'.owners k = s.owners k
  worker : ∀ w, s'.pool.worker w = .process k ↔ s.pool.worker w = .process k
  place : ∀ w, s.pool.worker w = .process k → s'.place w = s.place w
  mSockfd : s'.mSockfd k = s.mSockfd k

lemma SameAt.workersAt (h : SameAt s s' k) : s'.workersAt k = s.workersAt k := by
  simp only [WebServer.workersAt, countAt, h.worker]

lemma OwnedAt.congr (h : s.OwnedAt k) (hsame : SameAt s s' k) : s'.OwnedAt k where
  one hk := by
    rw [hsame.owners]
    exact h.one (hsame.fds.mp hk)
  gone hk := by
    rw [hsame.owners, hsame.workersAt]
    exact h.gone fun hk' => hk (hsame.fds.mpr hk')
  mSockfd hk := by
    rw [hsame.mSockfd]
    exact h.mSockfd (hsame.fds.mp hk)
  place w hw := by
    rw [hsame.place w ((hsame.worker w).mp hw), hsame.fds]
    exact h.place w ((hsame.worker w).mp hw)
  unset w hw hplace := by
    rw [hsame.place w ((hsame.worker w).mp hw)] at hplace
    rw [hsame.mSockfd]
    exact h.unset w ((hsame.worker w).mp hw) hplace

/-- A connection that a worker has not answered yet is open, and nothing else holds it. -/
lemma OwnedAt.of_worker (h : s.OwnedAt k) {w : W} (hw : s.pool.worker w = .process k)
    (hplace : s.place w = .read) :
    k ∈ s.fds ∧ s.workersAt k = 1 ∧ k ∉ s.armed ∧ s.batchAt k = 0 ∧ s.queueAt k = 0 := by
  have hopen := (h.place w hw).mp hplace
  have hpos : 0 < s.workersAt k := countAt_pos (p := Processing k) hw
  have hone := h.one hopen
  rw [owners_eq] at hone
  refine ⟨hopen, by omega, ?_, by omega, by omega⟩
  intro harmed
  rw [armedAt, if_pos harmed] at hone
  omega

/-! ### A connection that nothing holds

This is what a connection is between two owners, and what it stays when it is not handed on.
-/

structure Unheld (s : WebServer W) (k : ℕ) : Prop where
  isOpen : k ∈ s.fds
  owners : s.owners k = 0
  mSockfd : s.mSockfd k = some k

lemma Unheld.holders (h : s.Unheld k) :
    k ∉ s.armed ∧ s.batchAt k = 0 ∧ s.queueAt k = 0 ∧ s.workersAt k = 0 := by
  have howners := h.owners
  rw [owners_eq] at howners
  refine ⟨?_, by omega, by omega, by omega⟩
  intro harmed
  rw [armedAt, if_pos harmed] at howners
  omega

lemma Unheld.not_processing (h : s.Unheld k) (w : W) : s.pool.worker w ≠ .process k :=
  countAt_eq_zero.mp h.holders.2.2.2 w

lemma Unheld.modFd (h : s.Unheld k) : (s.modFd k).OwnedAt k := by
  obtain ⟨harmed, hbatch, hqueue, hworkers⟩ := h.holders
  have heq : s.modFd k = { s with armed := insert k s.armed } := by
    rw [WebServer.modFd, h.mSockfd]
    exact if_pos h.isOpen
  rw [heq]
  refine ⟨fun _ => ?_, fun hk => absurd h.isOpen hk, fun _ => h.mSockfd, ?_, ?_⟩
  · show (if k ∈ insert k s.armed then 1 else 0) + s.batchAt k + s.queueAt k + s.workersAt k = 1
    rw [if_pos (Finset.mem_insert_self k _), hbatch, hqueue, hworkers]
  · intro w hw
    exact absurd hw (h.not_processing w)
  · intro w hw
    exact absurd hw (h.not_processing w)

lemma Unheld.closeConn (h : s.Unheld k) : (s.closeConn k).OwnedAt k := by
  obtain ⟨-, hbatch, hqueue, hworkers⟩ := h.holders
  have heq : s.closeConn k = (s.removeFd k).unset k := by rw [WebServer.closeConn, h.mSockfd]
  have hclosed : k ∉ ((s.removeFd k).unset k).fds := Finset.notMem_erase k _
  rw [heq]
  refine ⟨fun hk => absurd hk hclosed, fun _ => ?_, fun hk => absurd hk hclosed, ?_, ?_⟩
  · constructor
    · show (if k ∈ s.armed.erase k then 1 else 0) + s.batchAt k + s.queueAt k + s.workersAt k =
        s.workersAt k
      rw [if_neg (Finset.notMem_erase k _), hbatch, hqueue, zero_add, zero_add, zero_add]
    · show s.workersAt k ≤ 1
      rw [hworkers]
      exact Nat.zero_le 1
  · intro w hw
    exact absurd hw (h.not_processing w)
  · intro w hw
    exact absurd hw (h.not_processing w)

/-- Closing takes back the arming. -/
lemma Unheld.modFd_closeConn (h : s.Unheld k) : (s.modFd k).closeConn k = s.closeConn k := by
  have heq : s.modFd k = { s with armed := insert k s.armed } := by
    rw [WebServer.modFd, h.mSockfd]
    exact if_pos h.isOpen
  rw [heq, WebServer.closeConn, WebServer.closeConn, h.mSockfd]
  simp only [WebServer.removeFd, WebServer.unset, Finset.erase_insert_eq_erase]

/-! ### The other connections -/

lemma SameAt.rfl' : SameAt s s k := ⟨Iff.rfl, rfl, fun _ => Iff.rfl, fun _ _ => rfl, rfl⟩

lemma SameAt.trans {s'' : WebServer W} (h : SameAt s s' k) (h' : SameAt s' s'' k) : SameAt s s'' k where
  fds := h'.fds.trans h.fds
  owners := h'.owners.trans h.owners
  worker w := (h'.worker w).trans (h.worker w)
  place w hw := (h'.place w ((h.worker w).mpr hw)).trans (h.place w hw)
  mSockfd := h'.mSockfd.trans h.mSockfd

lemma sameAt_armed (armed : Finset ℕ) (h : k ∈ armed ↔ k ∈ s.armed) :
    SameAt s { s with armed := armed } k := by
  refine ⟨Iff.rfl, ?_, fun _ => Iff.rfl, fun _ _ => rfl, rfl⟩
  show (if k ∈ armed then 1 else 0) + s.batchAt k + s.queueAt k + s.workersAt k = s.owners k
  simp only [h]
  rfl

lemma sameAt_modFd (hsock : s.mSockfd fd = some fd) (hk : k ≠ fd) : SameAt s (s.modFd fd) k := by
  rw [WebServer.modFd, hsock]
  dsimp only
  split
  · exact sameAt_armed _ (by simp [hk])
  · exact .rfl'

lemma sameAt_removeFd (hk : k ≠ fd) : SameAt s (s.removeFd fd) k := by
  refine ⟨by simp [removeFd, hk], ?_, fun _ => Iff.rfl, fun _ _ => rfl, rfl⟩
  exact (sameAt_armed (s := s) (s.armed.erase fd) (by simp [hk])).owners

lemma sameAt_unset (hk : k ≠ fd) : SameAt s (s.unset fd) k :=
  ⟨Iff.rfl, rfl, fun _ => Iff.rfl, fun _ _ => rfl, Function.update_of_ne hk _ _⟩

lemma sameAt_closeConn (hsock : s.mSockfd fd = some fd) (hk : k ≠ fd) :
    SameAt s (s.closeConn fd) k := by
  rw [WebServer.closeConn, hsock]
  exact (sameAt_removeFd hk).trans (sameAt_unset hk)

/-! ### The entries of the batch -/

omit [Fintype W] in
lemma batchAt_cons_conn {ev : Events} (hb : s.batch = .conn fd ev :: rest) (k : ℕ) :
    s.batchAt k = (s.next rest).batchAt k + if fd = k then 1 else 0 := by
  rw [batchAt, hb, List.filterMap_cons_some (show Ready.fd? (.conn fd ev) = some fd from rfl),
    List.count_cons]
  simp only [beq_iff_eq]
  rfl

lemma sameAt_listen (hb : s.batch = .listen :: rest) (k : ℕ) : SameAt s (s.next rest) k := by
  refine ⟨Iff.rfl, ?_, fun _ => Iff.rfl, fun _ _ => rfl, rfl⟩
  have hbatch : (s.next rest).batchAt k = s.batchAt k := by
    rw [batchAt, batchAt, hb]
    rfl
  rw [owners_eq, owners_eq, hbatch]
  rfl

/-- An entry is about one connection. -/
lemma sameAt_conn {ev : Events} (hb : s.batch = .conn fd ev :: rest) (hk : k ≠ fd) :
    SameAt s (s.next rest) k := by
  refine ⟨Iff.rfl, ?_, fun _ => Iff.rfl, fun _ _ => rfl, rfl⟩
  rw [owners_eq, owners_eq, batchAt_cons_conn hb k, if_neg (Ne.symm hk)]
  rfl

/-- A connection is taken out of the batch. -/
lemma OwnedAt.next {ev : Events} (h : s.OwnedAt fd) (hb : s.batch = .conn fd ev :: rest) :
    (s.next rest).Unheld fd := by
  have hbatch := batchAt_cons_conn hb fd
  rw [if_pos rfl] at hbatch
  have hopen : fd ∈ s.fds := by
    by_contra hclosed
    have hgone := (h.gone hclosed).1
    rw [owners_eq] at hgone
    omega
  refine ⟨hopen, ?_, h.mSockfd hopen⟩
  have hone := h.one hopen
  rw [owners_eq] at hone
  show s.armedAt fd + (s.next rest).batchAt fd + s.queueAt fd + s.workersAt fd = 0
  omega

/-! ### The pool -/

/-- The pool may do what it likes with other requests. -/
lemma sameAt_pool {pool : ThreadPool W Unit ℕ} {place : W → ProcessAt}
    (hqueue : pool.workqueue.count (some k) = s.queueAt k)
    (hworker : ∀ v, pool.worker v = .process k ↔ s.pool.worker v = .process k)
    (hplace : ∀ v, s.pool.worker v = .process k → place v = s.place v) :
    SameAt s { s with pool := pool, place := place } k := by
  refine ⟨Iff.rfl, ?_, hworker, hplace, rfl⟩
  have hworkers : countAt (Processing k) pool.worker = s.workersAt k := by
    simp only [workersAt, countAt, Processing, hworker]
  show s.armedAt k + s.batchAt k + pool.workqueue.count (some k) + countAt (Processing k) pool.worker =
    s.owners k
  rw [hqueue, hworkers]
  rfl

/-- `append` takes the connection `fd` in. -/
lemma Unheld.append (h : s.Unheld fd) (hroom : s.pool.workqueue.length ≤ s.pool.maxRequest) :
    (s.read fd true).OwnedAt fd ∧ ∀ k, k ≠ fd → SameAt s (s.read fd true) k := by
  have hqueue : ∀ k, (s.read fd true).queueAt k = s.queueAt k + if fd = k then 1 else 0 := by
    intro k
    rw [queueAt, WebServer.read, ThreadPool.append, if_neg (not_lt.mpr hroom)]
    show (s.pool.workqueue ++ [some fd]).count (some k) = _
    rw [List.count_append, List.count_singleton]
    simp [queueAt]
  have hpool : (s.read fd true).pool.worker = s.pool.worker := by
    rw [WebServer.read, ThreadPool.append, if_neg (not_lt.mpr hroom)]
  constructor
  · obtain ⟨harmed, hbatch, hempty, hworkers⟩ := h.holders
    refine ⟨fun _ => ?_, fun hk => absurd h.isOpen hk, fun _ => h.mSockfd, ?_, ?_⟩
    · rw [owners_eq, hqueue, if_pos rfl, hempty]
      show (if fd ∈ s.armed then 1 else 0) + s.batchAt fd + 1 +
        countAt (Processing fd) (s.read fd true).pool.worker = 1
      rw [hpool, if_neg harmed, hbatch, show countAt (Processing fd) s.pool.worker = 0 from hworkers]
    · intro w hw
      exact absurd (hpool ▸ hw) (h.not_processing w)
    · intro w hw
      exact absurd (hpool ▸ hw) (h.not_processing w)
  · intro k hk
    have hsame := hqueue k
    rw [if_neg (Ne.symm hk), add_zero] at hsame
    exact sameAt_pool hsame (fun v => by rw [← hpool]; rfl) fun _ _ => rfl

variable [DecidableEq W] {w : W}

omit [Fintype W] in
lemma process_update_iff {worker : W → ThreadPool.WorkerAt ℕ} {x : ThreadPool.WorkerAt ℕ}
    (hold : worker w ≠ .process k) (hnew : x ≠ .process k) (v : W) :
    Function.update worker w x v = .process k ↔ worker v = .process k := by
  by_cases hv : v = w
  · subst hv
    rw [Function.update_self]
    exact iff_of_false hnew hold
  · rw [Function.update_of_ne hv]

omit [Fintype W] in
lemma place_update {worker : W → ThreadPool.WorkerAt ℕ} {place : W → ProcessAt} {y : ProcessAt}
    (hold : worker w ≠ .process k) (v : W) (hv : worker v = .process k) :
    Function.update place w y v = place v := by
  refine Function.update_of_ne ?_ _ _
  rintro rfl
  exact hold hv

/-- A worker that is not in `process` before or behind its move is no owner. -/
lemma sameAt_goto {x : ThreadPool.WorkerAt ℕ} (hold : s.pool.worker w ≠ .process k)
    (hnew : x ≠ .process k) : SameAt s { s with pool := s.pool.goto w x } k :=
  sameAt_pool rfl (process_update_iff hold hnew) fun _ _ => rfl

lemma sameAt_place {y : ProcessAt} (hold : s.pool.worker w ≠ .process k) : SameAt s (s.goto w y) k :=
  sameAt_pool rfl (fun _ => Iff.rfl) (place_update hold)

/-- A request comes from the queue to a worker. -/
lemma OwnedAt.pop {rest : List (Option ℕ)} (h : s.OwnedAt fd) (hw : s.pool.worker w = .pop)
    (hqueue : s.pool.workqueue = some fd :: rest) :
    (s.fetch (s.pool.pop w) (.pop w)).OwnedAt fd := by
  have hcount : s.queueAt fd = rest.count (some fd) + 1 := by rw [queueAt, hqueue, List.count_cons_self]
  have hopen : fd ∈ s.fds := by
    by_contra hclosed
    have hgone := (h.gone hclosed).1
    rw [owners_eq] at hgone
    omega
  have hone := h.one hopen
  rw [owners_eq] at hone
  have hnone : ∀ v, s.pool.worker v ≠ .process fd :=
    countAt_eq_zero.mp (show s.workersAt fd = 0 by omega)
  have hpop : s.pool.pop w = { s.pool with
      workqueue := rest
      worker := Function.update s.pool.worker w (.process fd)
      popped := s.pool.popped ++ [some fd] } := by
    rw [ThreadPool.pop, hqueue]
    rfl
  have hworkers : countAt (Processing fd) (Function.update s.pool.worker w (.process fd)) =
      s.workersAt fd + 1 := countAt_update_enter (hnone w) rfl
  rw [fetch, hpop]
  refine ⟨fun _ => ?_, fun hk => absurd hopen hk, fun _ => h.mSockfd hopen, ?_, ?_⟩
  · show s.armedAt fd + s.batchAt fd + rest.count (some fd) +
      countAt (Processing fd) (Function.update s.pool.worker w (.process fd)) = 1
    omega
  · intro v hv
    by_cases hvw : v = w
    · subst hvw
      exact iff_of_true (Function.update_self _ _ _) hopen
    · have hv' : Function.update s.pool.worker w (.process fd) v = .process fd := hv
      rw [Function.update_of_ne hvw] at hv'
      exact absurd hv' (hnone v)
  · intro v hv hplace
    by_cases hvw : v = w
    · subst hvw
      have hread : Function.update s.place v .read v = .modFd := hplace
      rw [Function.update_self] at hread
      cases hread
    · have hv' : Function.update s.pool.worker w (.process fd) v = .process fd := hv
      rw [Function.update_of_ne hvw] at hv'
      exact absurd hv' (hnone v)

/-! ### The end of `process` -/

/-- The worker gives the connection away. -/
lemma OwnedAt.done (h : s.OwnedAt k) (hw : s.pool.worker w = .process k) (hplace : s.place w = .read) :
    (s.done w).Unheld k := by
  obtain ⟨hopen, hworkers, harmed, hbatch, hqueue⟩ := h.of_worker hw hplace
  have hleave : (s.done w).workersAt k + 1 = s.workersAt k := countAt_update_leave hw (by simp)
  refine ⟨hopen, ?_, h.mSockfd hopen⟩
  show (if k ∈ s.armed then 1 else 0) + s.batchAt k + s.queueAt k + (s.done w).workersAt k = 0
  rw [if_neg harmed]
  omega

omit [Fintype W] in
lemma modFd_done : (s.modFd k).done w = (s.done w).modFd k := by
  have hsock : (s.done w).mSockfd k = s.mSockfd k := rfl
  rw [WebServer.modFd, WebServer.modFd, hsock]
  cases s.mSockfd k with
  | none => rfl
  | some fd =>
    by_cases hfd : fd ∈ s.fds
    · have hfd' : fd ∈ (s.done w).fds := hfd
      simp only [if_pos hfd, if_pos hfd']
      rfl
    · have hfd' : fd ∉ (s.done w).fds := hfd
      simp only [if_neg hfd, if_neg hfd']

omit [DecidableEq W] in
/-- What a worker at the end of `process` still has of the connection that it closed: nothing, and it
is the only one. -/
lemma OwnedAt.of_closed (h : s.OwnedAt k) (hw : s.pool.worker w = .process k)
    (hplace : s.place w ≠ .read) :
    k ∉ s.fds ∧ s.owners k = s.workersAt k ∧ s.workersAt k = 1 ∧
      ∀ v, s.pool.worker v = .process k → v = w := by
  have hclosed : k ∉ s.fds := fun hk => hplace ((h.place w hw).mpr hk)
  obtain ⟨howners, hle⟩ := h.gone hclosed
  have hpos : 0 < s.workersAt k := countAt_pos (p := Processing k) hw
  exact ⟨hclosed, howners, by omega, fun v hv => eq_of_countAt_le_one (p := Processing k) hle hv hw⟩

/-- The worker goes into `close_conn`. -/
lemma OwnedAt.removeFd (h : s.OwnedAt k) (hw : s.pool.worker w = .process k)
    (hplace : s.place w = .read) : ((s.removeFd k).goto w .close).OwnedAt k := by
  obtain ⟨hopen, hworkers, harmed, hbatch, hqueue⟩ := h.of_worker hw hplace
  have honly : ∀ v, s.pool.worker v = .process k → v = w := fun v hv =>
    eq_of_countAt_le_one (p := Processing k) hworkers.le hv hw
  have hclosed : k ∉ ((s.removeFd k).goto w .close).fds := Finset.notMem_erase k _
  refine ⟨fun hk => absurd hk hclosed, fun _ => ⟨?_, hworkers.le⟩, fun hk => absurd hk hclosed, ?_, ?_⟩
  · show (if k ∈ s.armed.erase k then 1 else 0) + s.batchAt k + s.queueAt k + s.workersAt k =
      s.workersAt k
    rw [if_neg (Finset.notMem_erase k _), hbatch, hqueue, zero_add, zero_add, zero_add]
  · intro v hv
    obtain rfl := honly v hv
    have hclose : ((s.removeFd k).goto v .close).place v = .close := Function.update_self _ _ _
    rw [hclose]
    exact iff_of_false (by decide) hclosed
  · intro v hv hmod
    obtain rfl := honly v hv
    have hclose : ((s.removeFd k).goto v .close).place v = .close := Function.update_self _ _ _
    rw [hclose] at hmod
    cases hmod

/-- The worker is at the end of `close_conn`. -/
lemma OwnedAt.unset' (h : s.OwnedAt k) (hw : s.pool.worker w = .process k)
    (hplace : s.place w = .close) : ((s.unset k).goto w .modFd).OwnedAt k := by
  obtain ⟨hclosed, howners, hworkers, honly⟩ := h.of_closed hw (by rw [hplace]; decide)
  refine ⟨fun hk => absurd hk hclosed, fun _ => ⟨howners, hworkers.le⟩, fun hk => absurd hk hclosed,
    ?_, fun _ _ _ => Function.update_self _ _ _⟩
  intro v hv
  obtain rfl := honly v hv
  have hmod : ((s.unset k).goto v .modFd).place v = .modFd := Function.update_self _ _ _
  rw [hmod]
  exact iff_of_false (by decide) hclosed

/-- The last `mod_fd` of `process` finds no descriptor. -/
lemma OwnedAt.modFd (h : s.OwnedAt k) (hw : s.pool.worker w = .process k)
    (hplace : s.place w = .modFd) :
    ((s.modFd k).done w).OwnedAt k ∧ ∀ j, j ≠ k → SameAt s ((s.modFd k).done w) j := by
  obtain ⟨hclosed, howners, hworkers, honly⟩ := h.of_closed hw (by rw [hplace]; decide)
  have heq : s.modFd k = s := by rw [WebServer.modFd, h.unset w hw hplace]
  have hleave : (s.done w).workersAt k + 1 = s.workersAt k := countAt_update_leave hw (by simp)
  have hnone : ∀ v, (s.done w).pool.worker v ≠ .process k :=
    countAt_eq_zero.mp (show (s.done w).workersAt k = 0 by omega)
  rw [heq]
  constructor
  · refine ⟨fun hk => absurd hk hclosed, fun _ => ⟨?_, by omega⟩, fun hk => absurd hk hclosed, ?_, ?_⟩
    · rw [owners_eq] at howners
      show s.armedAt k + s.batchAt k + s.queueAt k + (s.done w).workersAt k = (s.done w).workersAt k
      omega
    · intro v hv
      exact absurd hv (hnone v)
    · intro v hv
      exact absurd hv (hnone v)
  · intro j hj
    exact sameAt_goto (by simp [hw, Ne.symm hj]) (by simp)

/-! ### Steps -/

omit [Fintype W] [DecidableEq W] in
/-- The loop goes on when `append` refuses the request. -/
lemma read_refused (h : s.pool.maxRequest < s.pool.workqueue.length) : s.read fd true = s := by
  rw [WebServer.read, ThreadPool.append, if_pos h]

omit [DecidableEq W] in
/-- A descriptor is accepted under a number that no worker is busy with. -/
lemma OwnedAt.init (h : s.OwnedAt fd) (hfree : fd ∉ s.fds)
    (hidle : ∀ w, s.pool.worker w ≠ .process fd) : (s.init fd).OwnedAt fd := by
  obtain ⟨howners, -⟩ := h.gone hfree
  have hworkers : s.workersAt fd = 0 := countAt_eq_zero.mpr hidle
  have hopen : fd ∈ (s.init fd).fds := Finset.mem_insert_self fd _
  rw [owners_eq] at howners
  refine ⟨fun _ => ?_, fun hk => absurd hopen hk, fun _ => Function.update_self _ _ _, ?_, ?_⟩
  · show (if fd ∈ insert fd s.armed then 1 else 0) + s.batchAt fd + s.queueAt fd + s.workersAt fd = 1
    rw [if_pos (Finset.mem_insert_self fd _)]
    omega
  · intro w hw
    exact absurd hw (hidle w)
  · intro w hw
    exact absurd hw (hidle w)

omit [DecidableEq W] in
lemma sameAt_init (hk : k ≠ fd) : SameAt s (s.init fd) k := by
  refine ⟨by simp [WebServer.init, hk], ?_, fun _ => Iff.rfl, fun _ _ => rfl,
    Function.update_of_ne hk _ _⟩
  exact (sameAt_armed (s := s) (insert fd s.armed) (by simp [hk])).owners

omit [DecidableEq W] in
/-- With a worker still busy under that number the new connection has two owners. -/
lemma not_owned_init (hw : s.pool.worker w = .process fd) : ¬ (s.init fd).Owned := by
  intro howned
  have hone := howned.one fd (Finset.mem_insert_self fd _)
  have hpos : 0 < (s.init fd).workersAt fd := countAt_pos (p := Processing fd) hw
  have harmed : (s.init fd).armedAt fd = 1 := if_pos (Finset.mem_insert_self fd _)
  rw [owners_eq] at hone
  omega

omit [DecidableEq W] in
lemma owned_of_ownedAt (h : ∀ k, s.OwnedAt k) : s.Owned where
  one fd hfd := (h fd).one hfd
  exclusive k := by
    show s.batchAt k + s.workersAt k ≤ 1
    by_cases hk : k ∈ s.fds
    · have hone := (h k).one hk
      rw [owners_eq] at hone
      omega
    · have hgone := (h k).gone hk
      rw [owners_eq] at hgone
      omega

omit [DecidableEq W] in
/-- A step that concerns one connection. -/
lemma ownedAt_of_same (h : ∀ k, s.OwnedAt k) (fd : ℕ) (hfd : s'.OwnedAt fd)
    (hother : ∀ k, k ≠ fd → SameAt s s' k) (k : ℕ) : s'.OwnedAt k := by
  by_cases hk : k = fd
  · subst hk
    exact hfd
  · exact (h k).congr (hother k hk)

/-- The workers fetch their requests. -/
lemma ownedAt_fetch {e : ThreadPool.Event W Unit ℕ} {pool : ThreadPool W Unit ℕ} (h : ∀ k, s.OwnedAt k)
    (hf : Fetches e) (hs : ThreadPool.Step s.pool e pool) (k : ℕ) : (s.fetch pool e).OwnedAt k := by
  cases hs with
  | append _ => exact hf.elim
  | post _ => exact hf.elim
  | done _ => exact hf.elim
  | wait hw _ =>
    exact (h k).congr (sameAt_pool rfl (process_update_iff (by simp [hw]) (by simp)) fun _ _ => rfl)
  | interrupt hw => exact (h k).congr (sameAt_goto (by simp [hw]) (by simp))
  | @pop w hw =>
    have hidle : ∀ j, s.pool.worker w ≠ .process j := by simp [hw]
    cases hqueue : s.pool.workqueue with
    | nil =>
      have hpop : s.pool.pop w = s.pool.goto w .wait := by rw [ThreadPool.pop, hqueue]
      rw [hpop]
      exact (h k).congr (sameAt_pool rfl (process_update_iff (hidle k) (by simp))
        (place_update (hidle k)))
    | cons request rest =>
      have hpop : s.pool.pop w = { s.pool with
          workqueue := rest
          worker := Function.update s.pool.worker w (request.elim .wait .process)
          popped := s.pool.popped ++ [request] } := by rw [ThreadPool.pop, hqueue]
      by_cases hk : request = some k
      · subst hk
        exact (h k).pop hw hqueue
      · have hnew : request.elim ThreadPool.WorkerAt.wait .process ≠ .process k := by
          cases request <;> simp_all
        have hcount : rest.count (some k) = s.queueAt k := by
          rw [queueAt, hqueue, List.count_cons_of_ne hk]
        rw [hpop]
        exact (h k).congr (sameAt_pool hcount (process_update_iff (hidle k) hnew)
          (place_update (hidle k)))

omit [DecidableEq W] in
/-- The main loop reports what is armed. -/
lemma ownedAt_epollWait {batch : List Ready} (h : ∀ k, s.OwnedAt k) (hb : s.batch = [])
    (hnd : (batch.filterMap Ready.fd?).Nodup) (harmed : ∀ fd ∈ batch.filterMap Ready.fd?, fd ∈ s.armed)
    (k : ℕ) : OwnedAt { s.next batch with
      armed := s.armed \ (batch.filterMap Ready.fd?).toFinset } k := by
  refine (h k).congr ⟨Iff.rfl, ?_, fun _ => Iff.rfl, fun _ _ => rfl, rfl⟩
  have hempty : s.batchAt k = 0 := by
    rw [batchAt, hb]
    rfl
  show (if k ∈ s.armed \ (batch.filterMap Ready.fd?).toFinset then 1 else 0) +
    (batch.filterMap Ready.fd?).count k + s.queueAt k + s.workersAt k =
      s.armedAt k + s.batchAt k + s.queueAt k + s.workersAt k
  rw [hempty, armedAt]
  by_cases hk : k ∈ batch.filterMap Ready.fd?
  · have hgone : k ∉ s.armed \ (batch.filterMap Ready.fd?).toFinset := by simp [hk]
    rw [List.count_eq_one_of_mem hnd hk, if_neg hgone, if_pos (harmed k hk)]
  · rw [List.count_eq_zero_of_not_mem hk]
    simp only [Finset.mem_sdiff, List.mem_toFinset, hk, not_false_eq_true, and_true]

omit [DecidableEq W] in
lemma owned_iff_of_ownedAt {ok : Prop} (h : ∀ k, s.OwnedAt k) (hok : ok) :
    (s.Owned ↔ ok) ∧ (ok → ∀ k, s.OwnedAt k) :=
  ⟨iff_of_true (owned_of_ownedAt h) hok, fun _ => h⟩

/-- Exactly the admissible steps keep the owners. -/
lemma Step.owned {e : Event W} (h : ∀ k, s.OwnedAt k) (hs : Step s e s') :
    (s'.Owned ↔ s.Admissible e) ∧ (s.Admissible e → ∀ k, s'.OwnedAt k) := by
  cases hs with
  | epollWait hb _ hnd harmed => exact owned_iff_of_ownedAt (ownedAt_epollWait h hb hnd harmed) trivial
  | acceptFails _ hb => exact owned_iff_of_ownedAt (fun k => (h k).congr (sameAt_listen hb k)) trivial
  | @accept rest fd _ hb hfree =>
    have hnext : ∀ k, (s.next rest).OwnedAt k := fun k => (h k).congr (sameAt_listen hb k)
    rw [WebServer.accept]
    split
    next hfull => exact owned_iff_of_ownedAt hnext (fun hlt => absurd hfull (not_le.mpr hlt))
    next hroom =>
      have hkeep : (∀ w, s.pool.worker w ≠ .process fd) → ∀ k, ((s.next rest).init fd).OwnedAt k :=
        fun hidle => ownedAt_of_same hnext fd ((hnext fd).init hfree hidle) fun k hk => sameAt_init hk
      have hroom' : s.mUserCount < maxFd := not_le.mp hroom
      refine ⟨⟨fun howned _ w hw => ?_, fun hok => ?_⟩, fun hok => hkeep (hok hroom')⟩
      · exact not_owned_init (s := s.next rest) hw howned
      · exact owned_of_ownedAt (hkeep (hok hroom'))
  | @read rest fd _ drained _ hb _ =>
    have hheld := (h fd).next hb
    cases drained with
    | false =>
      refine owned_iff_of_ownedAt (ownedAt_of_same h fd hheld.closeConn fun k hk => ?_) (by simp [Admissible])
      exact (sameAt_conn hb hk).trans (sameAt_closeConn hheld.mSockfd hk)
    | true =>
      by_cases hroom : s.pool.workqueue.length ≤ s.pool.maxRequest
      · obtain ⟨hfd, hother⟩ := hheld.append hroom
        exact owned_iff_of_ownedAt (ownedAt_of_same h fd hfd fun k hk => (sameAt_conn hb hk).trans (hother k hk))
          fun _ => hroom
      · rw [read_refused (s := s.next rest) (not_le.mp hroom)]
        have hok : ¬ s.Admissible (.read true) := fun hok => hroom (hok rfl)
        refine ⟨iff_of_false (fun howned => ?_) hok, fun hok' => absurd hok' hok⟩
        have hone := howned.one fd hheld.isOpen
        rw [hheld.owners] at hone
        cases hone
  | @write rest fd _ result _ hb _ _ =>
    have hheld := (h fd).next hb
    have hrest : ∀ k, k ≠ fd → SameAt s (s.next rest) k := fun k hk => sameAt_conn hb hk
    have harm := ownedAt_of_same h fd hheld.modFd fun k hk =>
      (hrest k hk).trans (sameAt_modFd hheld.mSockfd hk)
    have hclose := ownedAt_of_same h fd hheld.closeConn fun k hk =>
      (hrest k hk).trans (sameAt_closeConn hheld.mSockfd hk)
    cases result with
    | nothing => exact owned_iff_of_ownedAt harm trivial
    | again => exact owned_iff_of_ownedAt harm trivial
    | error => exact owned_iff_of_ownedAt hclose trivial
    | sent =>
      have hsent : (s.next rest).write fd .sent = (s.next rest).closeConn fd := hheld.modFd_closeConn
      rw [hsent]
      exact owned_iff_of_ownedAt hclose trivial
  | @hangUp rest fd _ _ hb _ _ _ =>
    have hheld := (h fd).next hb
    refine owned_iff_of_ownedAt (ownedAt_of_same h fd hheld.closeConn fun k hk => ?_) trivial
    exact (sameAt_conn hb hk).trans (sameAt_closeConn hheld.mSockfd hk)
  | post _ => exact owned_iff_of_ownedAt (fun k => (h k).congr (sameAt_pool rfl (fun _ => Iff.rfl) fun _ _ => rfl)) trivial
  | pool hf hpool => exact owned_iff_of_ownedAt (ownedAt_fetch h hf hpool) trivial
  | @answer w k answer hw hplace =>
    have hheld := (h k).done hw hplace
    have hgive : ∀ j, ((s.modFd k).done w).OwnedAt j := by
      rw [modFd_done]
      refine ownedAt_of_same h k hheld.modFd fun j hj => ?_
      exact (sameAt_goto (by simp [hw, Ne.symm hj]) (by simp)).trans (sameAt_modFd hheld.mSockfd hj)
    cases answer with
    | noRequest => exact owned_iff_of_ownedAt hgive trivial
    | written => exact owned_iff_of_ownedAt hgive trivial
    | failed =>
      have hfailed : s.answer w k .failed = (s.removeFd k).goto w .close := by
        rw [WebServer.answer, show s.mSockfd k = some k from hheld.mSockfd]
      rw [hfailed]
      refine owned_iff_of_ownedAt (ownedAt_of_same h k ((h k).removeFd hw hplace) fun j hj => ?_) trivial
      exact (sameAt_removeFd hj).trans (sameAt_place (by simpa [WebServer.removeFd, hw] using Ne.symm hj))
  | @unset w k hw hplace =>
    refine owned_iff_of_ownedAt (ownedAt_of_same h k ((h k).unset' hw hplace) fun j hj => ?_) trivial
    exact (sameAt_unset hj).trans (sameAt_place (by simpa [WebServer.unset, hw] using Ne.symm hj))
  | @modFd w k hw hplace =>
    obtain ⟨hk, hother⟩ := (h k).modFd hw hplace
    exact owned_iff_of_ownedAt (ownedAt_of_same h k hk hother) trivial

/-! ### Runs -/

omit [DecidableEq W] in
lemma ownedAt_start {maxRequest : ℕ} {mSockfd : ℕ → Option ℕ} (k : ℕ) :
    (start maxRequest mSockfd : WebServer W).OwnedAt k := by
  have hworkers : (start maxRequest mSockfd : WebServer W).workersAt k = 0 :=
    countAt_eq_zero.mpr (by simp [start, ThreadPool.init])
  have howners : (start maxRequest mSockfd : WebServer W).owners k = 0 := by
    rw [owners_eq, hworkers]
    rfl
  have hclosed : k ∉ (start maxRequest mSockfd : WebServer W).fds := Finset.notMem_empty k
  refine ⟨fun hk => absurd hk hclosed, fun _ => ?_, fun hk => absurd hk hclosed, ?_, ?_⟩
  · rw [howners, hworkers]
    exact ⟨rfl, Nat.zero_le 1⟩
  · intro w hw
    cases hw
  · intro w hw
    cases hw

/-- In a run every state is owned if and only if every step is admissible. -/
theorem run_owned_iff {maxRequest : ℕ} {mSockfd : ℕ → Option ℕ} {es : List (Event W)} :
    Trace (fun s e s' => Step s e s' ∧ s'.Owned) (start maxRequest mSockfd) es s ↔
      Trace (fun s e s' => Step s e s' ∧ s.Admissible e) (start maxRequest mSockfd) es s :=
  Trace.guard_iff (fun _ _ _ hs hstep => hstep.owned hs) ownedAt_start

/-- A worker closes its connection 7; before it is at the end of `process`, 7 is given out to a new
connection, which is armed. -/
theorem run_notOwned : ∃ s : WebServer Unit,
    Trace Step (start 10000 fun _ => none)
      [.epollWait [.listen], .accept 7, .epollWait [.conn 7 ⟨true, false, false⟩], .read true, .post,
        .pool (.wait ()), .pool (.pop ()), .answer () .failed, .epollWait [.listen], .accept 7] s ∧
      s.pool.worker () = .process 7 ∧ 7 ∈ s.armed ∧ ¬ s.Owned := by
  have hrun : Trace Step (start 10000 fun _ => none)
      [.epollWait [.listen], .accept 7, .epollWait [.conn 7 ⟨true, false, false⟩], .read true, .post,
        .pool (.wait ()), .pool (.pop ()), .answer () .failed, .epollWait [.listen], .accept 7]
      (_ : WebServer Unit) :=
    .cons (.epollWait rfl rfl (by decide) (by decide)) (.cons (.accept rfl rfl (by decide))
      (.cons (.epollWait rfl rfl (by decide) (by decide)) (.cons (.read rfl rfl rfl) (.cons (.post rfl)
      (.cons (.pool trivial (.wait rfl rfl)) (.cons (.pool trivial (.pop rfl)) (.cons (.answer rfl rfl)
      (.cons (.epollWait rfl rfl (by decide) (by decide)) (.cons (.accept rfl rfl (by decide))
      (.nil _))))))))))
  refine ⟨_, hrun, rfl, by decide, ?_⟩
  intro howned
  have hone := howned.one 7 (by decide)
  revert hone
  decide

end LinuxServer.WebServer
