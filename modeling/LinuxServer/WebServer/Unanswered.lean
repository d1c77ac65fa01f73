import LinuxServer.WebServer.Runs
import LinuxServer.HttpConn.Receiving

/-!
# The web server with the `read` that it has

The main loop hands a connection to the pool when `read` has returned true. What `http_conn::read`
returns is false, whatever it has received: so the pool never gets a request, and a connection is closed
at the first bytes that come in on it.
-/

namespace LinuxServer

open Core

namespace HttpConn

lemma readLoop_eq_false (c : HttpConn) (recvs : ℕ → Recv) : (c.readLoop recvs).1 = false := by
  induction c, recvs using readLoop.induct with
  | case1 c recvs hrecv => rw [readLoop, hrecv]
  | case2 c recvs hrecv => rw [readLoop, hrecv]
  | case3 c recvs chunk hrecv hnil =>
    rw [readLoop, hrecv]
    dsimp only
    rw [if_pos hnil]
  | case4 c recvs chunk hrecv hne ih =>
    rw [readLoop, hrecv]
    dsimp only
    rw [if_neg hne]
    exact ih

/-- However receiving goes, `read` returns false. -/
lemma read_eq_false (c : HttpConn) (recvs : ℕ → Recv) : (c.read recvs).1 = false := by
  rw [read]
  split
  · rfl
  · exact c.readLoop_eq_false recvs

end HttpConn

namespace WebServer

variable {W : Type*} {s s' : WebServer W} {k fd : ℕ} {rest : List Ready} {e : Event W}

/-- What `read` returns to the main loop is what `http_conn::read` returns, of a connection in whatever
state and for whatever `recv` answers. -/
def Received : Event W → Prop
  | .read drained => ∃ (c : HttpConn) (recvs : ℕ → HttpConn.Recv), (c.read recvs).1 = drained
  | _ => True

lemma Received.eq_false {drained : Bool} (h : Received (.read drained : Event W)) : drained = false := by
  obtain ⟨c, recvs, rfl⟩ := h
  exact c.read_eq_false recvs

/-! ### The pool -/

/-- The pool has never got a request. -/
structure Idle (pool : ThreadPool W Unit ℕ) : Prop where
  workqueue : pool.workqueue = []
  accepted : pool.accepted = []
  worker : ∀ w k, pool.worker w ≠ .process k

lemma idle_init (maxRequest : ℕ) : Idle (.init maxRequest : ThreadPool W Unit ℕ) where
  workqueue := rfl
  accepted := rfl
  worker _ _ h := by cases h

/-- A worker goes anywhere but to a request. -/
lemma Idle.goto [DecidableEq W] {pool : ThreadPool W Unit ℕ} {w : W} {place : ThreadPool.WorkerAt ℕ}
    (h : Idle pool) (hp : ∀ k, place ≠ .process k) : Idle (pool.goto w place) := by
  refine ⟨h.workqueue, h.accepted, fun v k => ?_⟩
  show Function.update pool.worker w place v ≠ .process k
  by_cases hv : v = w
  · rw [hv, Function.update_self]
    exact hp k
  · rw [Function.update_of_ne hv]
    exact h.worker v k

lemma Idle.fetch [DecidableEq W] {pe : ThreadPool.Event W Unit ℕ} {pool : ThreadPool W Unit ℕ}
    (h : Idle s.pool) (hf : Fetches pe) (hs : ThreadPool.Step s.pool pe pool) : Idle (s.fetch pool pe).pool := by
  cases hs with
  | append => exact hf.elim
  | post => exact hf.elim
  | done => exact hf.elim
  | @wait w _ _ _ =>
    have hgo : Idle (s.pool.goto w .pop) := h.goto (by simp)
    exact ⟨hgo.workqueue, hgo.accepted, hgo.worker⟩
  | interrupt => exact h.goto (by simp)
  | @pop w _ =>
    show Idle (s.pool.pop w)
    rw [ThreadPool.pop, h.workqueue]
    exact h.goto (by simp)

lemma pool_modFd (s : WebServer W) (k : ℕ) : (s.modFd k).pool = s.pool := by
  rw [WebServer.modFd]
  split
  next => rfl
  next => split <;> rfl

lemma pool_closeConn (s : WebServer W) (k : ℕ) : (s.closeConn k).pool = s.pool := by
  rw [WebServer.closeConn]
  split <;> rfl

lemma pool_write (s : WebServer W) (k : ℕ) (result : Write) : (s.write k result).pool = s.pool := by
  cases result with
  | nothing => exact pool_modFd s k
  | again => exact pool_modFd s k
  | error => exact pool_closeConn s k
  | sent => exact (pool_closeConn _ k).trans (pool_modFd s k)

lemma pool_accept (s : WebServer W) (fd : ℕ) : (s.accept fd).pool = s.pool := by
  rw [WebServer.accept]
  split <;> rfl

/-! ### The count of the users -/

/-- `m_user_count` is the number of open connections. -/
def CountsOpen (s : WebServer W) : Prop := s.mUserCount = s.fds.card

lemma CountsOpen.init (h : s.CountsOpen) (hfree : fd ∉ s.fds) : (s.init fd).CountsOpen := by
  show s.mUserCount + 1 = ((insert fd s.fds).card : ℤ)
  rw [Finset.card_insert_of_notMem hfree, h]
  rfl

lemma CountsOpen.accept (h : s.CountsOpen) (hfree : fd ∉ s.fds) : (s.accept fd).CountsOpen := by
  rw [WebServer.accept]
  split
  next => exact h
  next => exact h.init hfree

lemma CountsOpen.fetch [DecidableEq W] {pe : ThreadPool.Event W Unit ℕ} {pool : ThreadPool W Unit ℕ}
    (h : s.CountsOpen) : (s.fetch pool pe).CountsOpen := by
  cases pe <;> exact h

lemma CountsOpen.modFd (h : s.CountsOpen) : (s.modFd k).CountsOpen := by
  rw [WebServer.modFd]
  split
  next => exact h
  next => split <;> exact h

section

variable [Fintype W]

lemma CountsOpen.closeConn (h : s.CountsOpen) (hheld : s.Unheld k) : (s.closeConn k).CountsOpen := by
  have hclose : s.closeConn k = (s.removeFd k).unset k := by rw [WebServer.closeConn, hheld.mSockfd]
  have hpos : 0 < s.fds.card := Finset.card_pos.mpr ⟨k, hheld.isOpen⟩
  rw [hclose]
  show s.mUserCount - 1 = ((s.fds.erase k).card : ℤ)
  rw [Finset.card_erase_of_mem hheld.isOpen, h]
  omega

lemma CountsOpen.write (h : s.CountsOpen) (hheld : s.Unheld k) (result : Write) :
    (s.write k result).CountsOpen := by
  cases result with
  | nothing => exact h.modFd
  | again => exact h.modFd
  | error => exact h.closeConn hheld
  | sent =>
    show ((s.modFd k).closeConn k).CountsOpen
    rw [hheld.modFd_closeConn]
    exact h.closeConn hheld

/-! ### Runs -/

/-- What the server keeps when `read` always returns false. -/
structure Unanswered (s : WebServer W) : Prop where
  owned : ∀ k, s.OwnedAt k
  idle : Idle s.pool
  counts : s.CountsOpen

lemma unanswered_start (maxRequest : ℕ) (mSockfd : ℕ → Option ℕ) :
    (start maxRequest mSockfd : WebServer W).Unanswered :=
  ⟨ownedAt_start, idle_init maxRequest, rfl⟩

/-- An open connection is armed or in the batch, and not both. -/
lemma Unanswered.armedAt_add (h : s.Unanswered) (fd : ℕ) :
    s.armedAt fd + s.batchAt fd = if fd ∈ s.fds then 1 else 0 := by
  have hqueue : s.queueAt fd = 0 := by rw [queueAt, h.idle.workqueue, List.count_nil]
  have hworkers : s.workersAt fd = 0 := countAt_eq_zero.mpr fun w => h.idle.worker w fd
  have howners := owners_eq s fd
  split
  next hopen =>
    have hone := (h.owned fd).one hopen
    omega
  next hclosed =>
    have hgone := ((h.owned fd).gone hclosed).1
    omega

variable [DecidableEq W]

lemma Step.unanswered (hs : Step s e s') (h : s.Unanswered) (hr : Received e) : s'.Unanswered := by
  have hadmissible : s.Admissible e := by
    cases e with
    | read drained =>
      intro hdrained
      rw [hr.eq_false] at hdrained
      cases hdrained
    | accept => exact fun _ w => h.idle.worker w _
    | _ => trivial
  have howned := (hs.owned h.owned).2 hadmissible
  cases hs with
  | epollWait => exact ⟨howned, h.idle, h.counts⟩
  | acceptFails => exact ⟨howned, h.idle, h.counts⟩
  | @accept rest fd _ _ hfree =>
    have hcounts : (s.next rest).CountsOpen := h.counts
    exact ⟨howned, by rw [pool_accept]; exact h.idle, hcounts.accept hfree⟩
  | @read rest fd _ _ _ hb _ =>
    have hcounts : (s.next rest).CountsOpen := h.counts
    obtain rfl := hr.eq_false
    exact ⟨howned, by rw [WebServer.read, pool_closeConn]; exact h.idle,
      hcounts.closeConn ((h.owned fd).next hb)⟩
  | @write rest fd _ result _ hb _ _ =>
    have hcounts : (s.next rest).CountsOpen := h.counts
    exact ⟨howned, by rw [pool_write]; exact h.idle, hcounts.write ((h.owned fd).next hb) result⟩
  | @hangUp rest fd _ _ hb _ _ _ =>
    have hcounts : (s.next rest).CountsOpen := h.counts
    exact ⟨howned, by rw [pool_closeConn]; exact h.idle, hcounts.closeConn ((h.owned fd).next hb)⟩
  | post => exact ⟨howned, ⟨h.idle.workqueue, h.idle.accepted, h.idle.worker⟩, h.counts⟩
  | pool hf hpool =>
    exact ⟨howned, h.idle.fetch hf hpool, h.counts.fetch⟩
  | answer hw => exact absurd hw (h.idle.worker _ _)
  | unset hw => exact absurd hw (h.idle.worker _ _)
  | modFd hw => exact absurd hw (h.idle.worker _ _)

/-- In every run of the server with `http_conn::read` as it is: nothing is ever handed to the pool, and no
worker processes a connection; what is reported with `EPOLLIN` is closed; a connection is open if and only
if either `epoll` will report it or it is an entry that the loop has still to handle; and `m_user_count`
is the number of them. -/
theorem run_unanswered {maxRequest : ℕ} {mSockfd : ℕ → Option ℕ} {es : List (Event W)}
    (hrun : Trace (fun s e s' => Step s e s' ∧ Received e) (start maxRequest mSockfd) es s) :
    s.pool.accepted = [] ∧ (∀ w k, s.pool.worker w ≠ .process k) ∧
      (∀ fd ev rest drained s', s.batch = .conn fd ev :: rest → Step s (.read drained) s' →
        Received (.read drained : Event W) → s'.fds = s.fds.erase fd ∧ fd ∈ s.fds) ∧
      (∀ fd, fd ∈ s.fds ↔ fd ∈ s.armed ∨ fd ∈ s.batch.filterMap Ready.fd?) ∧
      (∀ fd ∈ s.armed, fd ∉ s.batch.filterMap Ready.fd?) ∧ s.mUserCount = s.fds.card := by
  have h : s.Unanswered := hrun.invariant (fun _ _ _ h hs => hs.1.unanswered h hs.2)
    (unanswered_start maxRequest mSockfd)
  have harmed : ∀ fd, fd ∈ s.armed ↔ s.armedAt fd = 1 := fun fd => by simp [armedAt]
  have hbatch : ∀ fd, fd ∈ s.batch.filterMap Ready.fd? ↔ 0 < s.batchAt fd := fun fd => List.count_pos_iff.symm
  have hle : ∀ fd, s.armedAt fd ≤ 1 := fun fd => by
    rw [armedAt]
    split <;> omega
  refine ⟨h.idle.accepted, h.idle.worker, ?_, fun fd => ?_, fun fd hfd hmem => ?_, h.counts⟩
  · intro fd ev rest drained s' hb hs hr
    have hheld := (h.owned fd).next hb
    obtain rfl := hr.eq_false
    cases hs with
    | read _ hb' _ =>
      obtain ⟨hfd, rfl⟩ : Ready.conn fd ev = Ready.conn _ _ ∧ rest = _ := by simpa [hb] using hb'
      cases hfd
      refine ⟨?_, hheld.isOpen⟩
      show ((s.next rest).closeConn fd).fds = s.fds.erase fd
      rw [WebServer.closeConn, hheld.mSockfd]
      rfl
  · have hsum := h.armedAt_add fd
    rw [harmed, hbatch]
    split at hsum
    next hopen => exact iff_of_true hopen (by omega)
    next hclosed => exact iff_of_false hclosed (by omega)
  · have hsum := h.armedAt_add fd
    rw [harmed] at hfd
    rw [hbatch] at hmem
    split at hsum <;> omega

/-- A byte comes in on the connection 7, which is closed. -/
theorem run_unanswered_one : ∃ s : WebServer Unit,
    Trace (fun s e s' => Step s e s' ∧ Received e) (start 10000 fun _ => none)
      [.epollWait [.listen], .accept 7, .epollWait [.conn 7 ⟨true, false, false⟩], .read false] s ∧
      s.fds = ∅ ∧ s.pool.accepted = [] := by
  have hreceived : Received (.read false : Event Unit) :=
    ⟨.init, HttpConn.oneByte, HttpConn.read_eq_false _ _⟩
  have hrun : Trace (fun s e s' => Step s e s' ∧ Received e) (start 10000 fun _ => none : WebServer Unit)
      [.epollWait [.listen], .accept 7, .epollWait [.conn 7 ⟨true, false, false⟩], .read false] _ :=
    .cons ⟨.epollWait rfl rfl (by decide) (by decide), trivial⟩
      (.cons ⟨.accept rfl rfl (by decide), trivial⟩
      (.cons ⟨.epollWait rfl rfl (by decide) (by decide), trivial⟩
      (.cons ⟨.read rfl rfl rfl, hreceived⟩ (.nil _))))
  exact ⟨_, hrun, by decide, (run_unanswered hrun).1⟩

end

end WebServer

end LinuxServer
