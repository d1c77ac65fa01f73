import LinuxServer.WebServer.Basic
import LinuxServer.Core.Handles

/-!
# The count of the users

The server with what the count is compared with: the objects that were initialised, the descriptors in
the `epoll` set, and the sockets behind the descriptors. A call of `process` is a single step.

`init` counts a user and `close_conn` takes one off, and sets `m_sockfd` so that it does nothing when it is
called again. What reaches `close_conn` is an object that was initialised: it was in the `epoll` set
once, and from there it may have gone to the batch, to the queue and to a worker.
-/

namespace LinuxServer.WebServer

open Core

/-- The server, and what it is counted by. -/
structure Tallied (W : Type*) extends WebServer W where
  initialised : Finset ℕ
  epollSet : Finset ℕ
  handles : Handles

namespace Tallied

variable {W : Type*}

/-- At the first call of `epoll_wait`. -/
def start (maxRequest : ℕ) (mSockfd : ℕ → Option ℕ) : Tallied W where
  toWebServer := .start maxRequest mSockfd
  initialised := ∅
  epollSet := ∅
  handles := .empty

/-- A connection is accepted as `fd`, and closed again by `show_error` when there are too many users. -/
def accept (s : Tallied W) (fd : ℕ) : Tallied W :=
  let s := { s with handles := s.handles.give fd }
  if maxFd ≤ s.mUserCount then
    { s with handles := s.handles.close fd }
  else
    { s with
      toWebServer := s.init fd
      initialised := insert fd s.initialised
      epollSet := insert fd s.epollSet }

/-- `close_conn()` of the connection `k` -/
def closeConn (s : Tallied W) (k : ℕ) : Tallied W :=
  match s.mSockfd k with
  | none => s
  | some fd =>
    { s with
      toWebServer := s.toWebServer.closeConn k
      epollSet := s.epollSet.erase fd
      handles := s.handles.close fd }

variable [DecidableEq W]

/-- `process` of the connection `k` when `process_write` returns false. -/
def fail (s : Tallied W) (w : W) (k : ℕ) : Tallied W :=
  let s := s.closeConn k
  { s with toWebServer := ((s.goto w .modFd).modFd k).done w }

/-- Events that open and close nothing. -/
def Quiet : Event W → Prop
  | .epollWait _ => True
  | .acceptFails => True
  | .read drained => drained = true
  | .write result => result = .nothing ∨ result = .again
  | .post => True
  | .pool _ => True
  | .answer _ answer => answer = .noRequest ∨ answer = .written
  | _ => False

/-- An event of the server, or one more call of `close_conn`. -/
inductive Turn (W : Type*)
  | server (e : Event W)
  | closeConn (k : ℕ)

inductive Step : Tallied W → Turn W → Tallied W → Prop
  | quiet {s : Tallied W} {e : Event W} {server : WebServer W} :
      Quiet e → WebServer.Step s.toWebServer e server →
        Step s (.server e) { s with toWebServer := server }
  | accept {s : Tallied W} {rest : List Ready} {fd : ℕ} :
      s.pool.appender () = .idle → s.batch = .listen :: rest → fd ∉ s.fds → fd < maxFd →
        Step s (.server (.accept fd)) (accept { s with toWebServer := s.next rest } fd)
  | read {s : Tallied W} {rest : List Ready} {fd : ℕ} {ev : Events} :
      s.pool.appender () = .idle → s.batch = .conn fd ev :: rest → ev.epollIn = true →
        Step s (.server (.read false)) (closeConn { s with toWebServer := s.next rest } fd)
  | write {s : Tallied W} {rest : List Ready} {fd : ℕ} {ev : Events} :
      s.pool.appender () = .idle → s.batch = .conn fd ev :: rest → ev.epollIn = false →
      ev.epollOut = true →
        Step s (.server (.write .error)) (closeConn { s with toWebServer := s.next rest } fd)
  | sent {s : Tallied W} {rest : List Ready} {fd : ℕ} {ev : Events} :
      s.pool.appender () = .idle → s.batch = .conn fd ev :: rest → ev.epollIn = false →
      ev.epollOut = true →
        Step s (.server (.write .sent)) (closeConn { s with toWebServer := (s.next rest).modFd fd } fd)
  | hangUp {s : Tallied W} {rest : List Ready} {fd : ℕ} {ev : Events} :
      s.pool.appender () = .idle → s.batch = .conn fd ev :: rest → ev.epollIn = false →
      ev.epollOut = false → ev.hangUp = true →
        Step s (.server .hangUp) (closeConn { s with toWebServer := s.next rest } fd)
  | process {s : Tallied W} {w : W} {k : ℕ} :
      s.pool.worker w = .process k → s.place w = .read → Step s (.server (.answer w .failed)) (s.fail w k)
  | closeConn {s : Tallied W} {k : ℕ} : k ∈ s.initialised → Step s (.closeConn k) (s.closeConn k)

omit [DecidableEq W] in
/-- The objects whose socket is open. -/
def openConns (s : Tallied W) : Finset ℕ := s.initialised.filter fun k => s.mSockfd k ≠ none

omit [DecidableEq W] in
/-- The users are counted: they are those under whose number a socket is open. Each of them is in the
`epoll` set, and nothing else is; no socket is closed twice, and no descriptor that is not open. -/
structure Tally (s : Tallied W) : Prop where
  count : s.mUserCount = s.openConns.card
  resource : ∀ k, k ∈ s.openConns ↔ s.handles.resource k ≠ none
  epoll : ∀ k, k ∈ s.epollSet ↔ k ∈ s.openConns
  once : s.handles.closes.Nodup
  valid : none ∉ s.handles.closes

end Tallied

/-! ### The objects that are held -/

variable {W : Type*} {s s' : WebServer W} {k fd : ℕ} {rest : List Ready} {objects objects' : Finset ℕ}

/-- What `epoll`, the batch, the queue and the workers have is among the objects. -/
structure HeldIn (s : WebServer W) (objects : Finset ℕ) : Prop where
  armed : ∀ k ∈ s.armed, k ∈ objects
  batch : ∀ k ∈ s.batch.filterMap Ready.fd?, k ∈ objects
  queue : ∀ k, some k ∈ s.pool.workqueue → k ∈ objects
  worker : ∀ w k, s.pool.worker w = .process k → k ∈ objects

/-- An object has the descriptor that it is named by, or none. -/
def OwnSockets (s : WebServer W) (objects : Finset ℕ) : Prop :=
  ∀ k ∈ objects, s.mSockfd k = none ∨ s.mSockfd k = some k

/-- No connection is opened or closed. -/
structure SameUsers (s s' : WebServer W) : Prop where
  fds : s'.fds = s.fds
  mSockfd : s'.mSockfd = s.mSockfd
  mUserCount : s'.mUserCount = s.mUserCount

lemma HeldIn.mono (h : s.HeldIn objects) (hsub : objects ⊆ objects') : s.HeldIn objects' where
  armed k hk := hsub (h.armed k hk)
  batch k hk := hsub (h.batch k hk)
  queue k hk := hsub (h.queue k hk)
  worker w k hk := hsub (h.worker w k hk)

lemma HeldIn.next {x : Ready} (h : s.HeldIn objects) (hb : s.batch = x :: rest) :
    (s.next rest).HeldIn objects := by
  refine { h with batch := fun k hk => h.batch k ?_ }
  rw [hb]
  obtain ⟨y, hy, hfd⟩ := List.mem_filterMap.mp hk
  exact List.mem_filterMap.mpr ⟨y, List.mem_cons_of_mem _ hy, hfd⟩

lemma HeldIn.head {ev : Events} (h : s.HeldIn objects) (hb : s.batch = .conn fd ev :: rest) :
    fd ∈ objects := by
  apply h.batch fd
  rw [hb]
  exact List.mem_filterMap.mpr ⟨_, List.mem_cons_self, rfl⟩

lemma HeldIn.modFd (h : s.HeldIn objects) (hown : s.OwnSockets objects) (hk : k ∈ objects) :
    (s.modFd k).HeldIn objects := by
  rw [WebServer.modFd]
  rcases hown k hk with hnone | hsome
  · rw [hnone]
    exact h
  · rw [hsome]
    dsimp only
    split
    · refine { h with armed := fun j hj => ?_ }
      rcases Finset.mem_insert.mp hj with rfl | hj
      · exact hk
      · exact h.armed j hj
    · exact h

lemma HeldIn.closeConn (h : s.HeldIn objects) : (s.closeConn k).HeldIn objects := by
  rw [WebServer.closeConn]
  split
  · exact h
  · exact { h with armed := fun j hj => h.armed j (Finset.mem_of_mem_erase hj) }

lemma HeldIn.init (h : s.HeldIn objects) : (s.init fd).HeldIn (insert fd objects) := by
  have hmono := h.mono (Finset.subset_insert fd objects)
  refine { hmono with armed := fun j hj => ?_ }
  rcases Finset.mem_insert.mp hj with rfl | hj
  · exact Finset.mem_insert_self _ _
  · exact hmono.armed j hj

/-- The object `fd` gets the descriptor that it is named by, or none. -/
lemma OwnSockets.update {x : Option ℕ} (h : s.OwnSockets objects)
    (hobjects : ∀ k ∈ objects', k ≠ fd → k ∈ objects) (hx : x = none ∨ x = some fd) :
    ∀ k ∈ objects', Function.update s.mSockfd fd x k = none ∨
      Function.update s.mSockfd fd x k = some k := by
  intro k hk
  by_cases hkfd : k = fd
  · subst hkfd
    rw [Function.update_self]
    exact hx
  · rw [Function.update_of_ne hkfd]
    exact h k (hobjects k hk hkfd)

lemma sameUsers_modFd : SameUsers s (s.modFd k) := by
  rw [WebServer.modFd]
  split
  · exact ⟨rfl, rfl, rfl⟩
  · split
    · exact ⟨rfl, rfl, rfl⟩
    · exact ⟨rfl, rfl, rfl⟩

variable [DecidableEq W] {w : W}

/-- A worker goes where it has a connection among the objects, or none. -/
lemma HeldIn.move {x : ThreadPool.WorkerAt ℕ} (h : s.HeldIn objects)
    (hx : ∀ k, x = .process k → k ∈ objects) :
    HeldIn { s with pool := s.pool.goto w x } objects := by
  refine { h with worker := fun v k hv => ?_ }
  have hv' : Function.update s.pool.worker w x v = .process k := hv
  by_cases hvw : v = w
  · subst hvw
    rw [Function.update_self] at hv'
    exact hx k hv'
  · rw [Function.update_of_ne hvw] at hv'
    exact h.worker v k hv'

lemma HeldIn.done (h : s.HeldIn objects) : (s.done w).HeldIn objects := h.move nofun

omit [DecidableEq W] in
lemma HeldIn.append (h : s.HeldIn objects) (hk : k ∈ objects) : (s.read k true).HeldIn objects := by
  rw [WebServer.read, ThreadPool.append]
  split
  · exact h
  · refine { h with queue := fun j hj => ?_ }
    rcases List.mem_append.mp hj with hj | hj
    · exact h.queue j hj
    · cases List.mem_singleton.mp hj
      exact hk

/-- A request comes from the queue to a worker. -/
lemma HeldIn.pop (h : s.HeldIn objects) : HeldIn { s with pool := s.pool.pop w } objects := by
  rw [ThreadPool.pop]
  split
  next => exact h.move nofun
  next request rest hqueue =>
    have hrest : HeldIn { s with pool := { s.pool with workqueue := rest } } objects := by
      refine { h with queue := fun j hj => h.queue j ?_ }
      rw [hqueue]
      exact List.mem_cons_of_mem _ hj
    have hrequest : ∀ k, request.elim ThreadPool.WorkerAt.wait .process = .process k → k ∈ objects := by
      intro k hk
      cases request with
      | none => cases hk
      | some j =>
        cases hk
        apply h.queue k
        rw [hqueue]
        exact List.mem_cons_self
    have hmove := hrest.move (w := w) hrequest
    exact { hmove with }

lemma HeldIn.fetch {e : ThreadPool.Event W Unit ℕ} {pool : ThreadPool W Unit ℕ} (h : s.HeldIn objects)
    (hf : Fetches e) (hs : ThreadPool.Step s.pool e pool) : (s.fetch pool e).HeldIn objects := by
  cases hs with
  | append _ => exact hf.elim
  | post _ => exact hf.elim
  | done _ => exact hf.elim
  | @wait w _ _ _ =>
    have hmove : HeldIn { s with pool := s.pool.goto w .pop } objects := h.move nofun
    exact { hmove with }
  | interrupt _ => exact h.move nofun
  | @pop w _ =>
    have hpop : HeldIn { s with pool := s.pool.pop w } objects := h.pop
    exact { hpop with }

lemma sameUsers_fetch {e : ThreadPool.Event W Unit ℕ} {pool : ThreadPool W Unit ℕ} :
    SameUsers s (s.fetch pool e) := by
  cases e with
  | pop w => exact ⟨rfl, rfl, rfl⟩
  | append a request => exact ⟨rfl, rfl, rfl⟩
  | post a => exact ⟨rfl, rfl, rfl⟩
  | wait w => exact ⟨rfl, rfl, rfl⟩
  | interrupt w => exact ⟨rfl, rfl, rfl⟩
  | done w => exact ⟨rfl, rfl, rfl⟩

/-- What a quiet step does to the count, and to what is held: nothing. -/
lemma Step.quiet {e : Event W} (hs : Step s e s') (hq : Tallied.Quiet e) (h : s.HeldIn objects)
    (hown : s.OwnSockets objects) : s'.HeldIn objects ∧ SameUsers s s' := by
  cases hs with
  | epollWait _ _ _ harmed =>
    refine ⟨{ h with armed := fun k hk => ?_, batch := fun k hk => ?_ }, rfl, rfl, rfl⟩
    · exact h.armed k (Finset.mem_sdiff.mp hk).1
    · exact h.armed k (harmed k hk)
  | acceptFails _ hb => exact ⟨h.next hb, rfl, rfl, rfl⟩
  | accept => exact hq.elim
  | @read _ fd _ drained _ hb _ =>
    obtain rfl : drained = true := hq
    refine ⟨(h.next hb).append (h.head hb), rfl, rfl, rfl⟩
  | @write rest fd _ result _ hb _ _ =>
    have hmod := (h.next hb).modFd hown (h.head hb)
    have hsame : SameUsers (s.next rest) ((s.next rest).modFd fd) := sameUsers_modFd
    rcases hq with rfl | rfl
    · exact ⟨hmod, hsame.fds, hsame.mSockfd, hsame.mUserCount⟩
    · exact ⟨hmod, hsame.fds, hsame.mSockfd, hsame.mUserCount⟩
  | hangUp => exact hq.elim
  | post _ => exact ⟨{ h with }, rfl, rfl, rfl⟩
  | pool hf hpool => exact ⟨h.fetch hf hpool, sameUsers_fetch⟩
  | @answer w k answer hw _ =>
    have hmod := (h.modFd hown (h.worker w k hw)).done (w := w)
    have hsame : SameUsers s (s.modFd k) := sameUsers_modFd
    rcases hq with rfl | rfl
    · exact ⟨hmod, hsame.fds, hsame.mSockfd, hsame.mUserCount⟩
    · exact ⟨hmod, hsame.fds, hsame.mSockfd, hsame.mUserCount⟩
  | unset => exact hq.elim
  | modFd => exact hq.elim

namespace Tallied

/-! ### Steps -/

variable {s s' : Tallied W} {e : Turn W}

omit [DecidableEq W] in
/-- What holds of the count: the open connections are the open descriptors and the `epoll` set, and what
may come to be closed was initialised. -/
structure Counted (s : Tallied W) : Prop where
  held : s.toWebServer.HeldIn s.initialised
  own : s.OwnSockets s.initialised
  fds : s.fds = s.openConns
  epollSet : s.epollSet = s.openConns
  count : s.mUserCount = s.openConns.card
  resource : ∀ fd, s.handles.resource fd ≠ none ↔ fd ∈ s.fds
  once : s.handles.Once

omit [DecidableEq W] in
lemma Counted.tally (h : s.Counted) : s.Tally where
  count := h.count
  resource k := by rw [h.resource, h.fds]
  epoll k := by rw [h.epollSet]
  once := h.once.nodup
  valid := h.once.valid

omit [DecidableEq W] in
/-- The server does something that opens and closes nothing. -/
lemma Counted.server {server : WebServer W} (h : s.Counted) (hheld : server.HeldIn s.initialised)
    (hsame : SameUsers s.toWebServer server) : Counted { s with toWebServer := server } := by
  have hopen : openConns { s with toWebServer := server } = s.openConns := by
    rw [openConns, openConns, hsame.mSockfd]
  refine ⟨hheld, ?_, ?_, ?_, ?_, ?_, h.once⟩
  · rw [OwnSockets, hsame.mSockfd]
    exact h.own
  · rw [hsame.fds, h.fds, hopen]
  · rw [hopen]
    exact h.epollSet
  · rw [hsame.mUserCount, h.count, hopen]
  · intro fd
    rw [hsame.fds]
    exact h.resource fd

omit [DecidableEq W] in
lemma mem_openConns {k : ℕ} : k ∈ s.openConns ↔ k ∈ s.initialised ∧ s.mSockfd k ≠ none := Finset.mem_filter

omit [DecidableEq W] in
/-- What is open when the descriptor of `k` is set to -1. -/
lemma openConns_erase (hinit : s'.initialised = s.initialised)
    (hsock : s'.mSockfd = Function.update s.mSockfd k none) : s'.openConns = s.openConns.erase k := by
  ext j
  rw [Finset.mem_erase, mem_openConns, mem_openConns, hinit, hsock]
  by_cases hj : j = k
  · subst hj
    rw [Function.update_self]
    exact iff_of_false (fun hopen => hopen.2 rfl) (fun hopen => hopen.1 rfl)
  · rw [Function.update_of_ne hj]
    exact ⟨fun hopen => ⟨hj, hopen⟩, fun hopen => hopen.2⟩

omit [DecidableEq W] in
/-- What is open when `k` is initialised with the descriptor that it is named by. -/
lemma openConns_insert (hinit : s'.initialised = insert k s.initialised)
    (hsock : s'.mSockfd = Function.update s.mSockfd k (some k)) :
    s'.openConns = insert k s.openConns := by
  ext j
  rw [Finset.mem_insert, mem_openConns, mem_openConns, hinit, hsock, Finset.mem_insert]
  by_cases hj : j = k
  · subst hj
    rw [Function.update_self]
    exact iff_of_true ⟨.inl rfl, nofun⟩ (.inl rfl)
  · rw [Function.update_of_ne hj]
    simp only [hj, false_or]

omit [DecidableEq W] in
/-- A call of `close_conn`, the first one or one more. -/
lemma Counted.closeConn (h : s.Counted) (hk : k ∈ s.initialised) : (s.closeConn k).Counted := by
  rcases h.own k hk with hnone | hsome
  · rw [Tallied.closeConn, hnone]
    exact h
  · have heq : s.closeConn k = { s with
        toWebServer := (s.removeFd k).unset k
        epollSet := s.epollSet.erase k
        handles := s.handles.close k } := by
      rw [Tallied.closeConn, hsome]
      dsimp only
      rw [WebServer.closeConn, hsome]
    have hopen : k ∈ s.openConns := mem_openConns.mpr ⟨hk, by rw [hsome]; exact nofun⟩
    have hconns : (s.closeConn k).openConns = s.openConns.erase k := by
      rw [heq]
      exact openConns_erase rfl rfl
    obtain ⟨n, hn⟩ := Option.ne_none_iff_exists'.mp ((h.resource k).mpr (h.fds ▸ hopen))
    have hheld : ((s.removeFd k).unset k).HeldIn s.initialised := by
      have hclose := h.held.closeConn (k := k)
      rw [WebServer.closeConn, hsome] at hclose
      exact hclose
    rw [heq] at hconns ⊢
    have hown := h.own.update (fun j hj (_ : j ≠ k) => hj) (.inl rfl)
    refine ⟨hheld, hown, ?_, ?_, ?_, fun fd => ?_, h.once.close hn⟩
    · rw [hconns, ← h.fds]
      rfl
    · rw [hconns, ← h.epollSet]
    · rw [hconns, Finset.card_erase_of_mem hopen, Nat.cast_sub (Finset.card_pos.mpr ⟨k, hopen⟩),
        ← h.count]
      rfl
    · show (s.handles.close k).resource fd ≠ none ↔ fd ∈ s.fds.erase k
      rw [Handles.resource_close_ne_none, h.resource, Finset.mem_erase]

omit [DecidableEq W] in
/-- A connection is accepted under a number that is free. -/
lemma Counted.accept (h : s.Counted) (hfree : fd ∉ s.fds) : (s.accept fd).Counted := by
  have hgive := h.once.give fd
  rw [Tallied.accept]
  dsimp only
  split
  · -- `show_error` closes what was accepted
    refine ⟨h.held, h.own, h.fds, h.epollSet, h.count, fun j => ?_, hgive.close Handles.resource_give_self⟩
    show ((s.handles.give fd).close fd).resource j ≠ none ↔ j ∈ s.fds
    rw [Handles.resource_close_ne_none, Handles.resource_give_ne_none, h.resource]
    constructor
    · rintro ⟨hj, hopen⟩
      exact hopen.resolve_left hj
    · intro hopen
      exact ⟨fun hj => hfree (hj ▸ hopen), .inr hopen⟩
  · have hclosed : fd ∉ s.openConns := h.fds ▸ hfree
    have hconns : openConns { s with
        toWebServer := s.init fd
        initialised := insert fd s.initialised
        epollSet := insert fd s.epollSet
        handles := s.handles.give fd } = insert fd s.openConns := openConns_insert rfl rfl
    have hobjects : ∀ j ∈ insert fd s.initialised, j ≠ fd → j ∈ s.initialised :=
      fun _ hj hne => Finset.mem_of_mem_insert_of_ne hj hne
    have hown := h.own.update hobjects (.inr rfl)
    refine ⟨h.held.init, hown, ?_, ?_, ?_, fun j => ?_, hgive⟩
    · rw [hconns, ← h.fds]
      rfl
    · rw [hconns, ← h.epollSet]
    · rw [hconns, Finset.card_insert_of_notMem hclosed, Nat.cast_succ, ← h.count]
      rfl
    · show (s.handles.give fd).resource j ≠ none ↔ j ∈ insert fd s.fds
      rw [Handles.resource_give_ne_none, h.resource, Finset.mem_insert]

omit [DecidableEq W] in
/-- The loop goes on to the next entry. -/
lemma Counted.next {x : Ready} (h : s.Counted) (hb : s.batch = x :: rest) :
    Counted { s with toWebServer := s.next rest } := h.server (h.held.next hb) ⟨rfl, rfl, rfl⟩

/-- A call of `process` that closes its connection. -/
lemma Counted.fail (h : s.Counted) (hk : k ∈ s.initialised) : (s.fail w k).Counted := by
  have hclose := h.closeConn hk
  have hinit : (s.closeConn k).initialised = s.initialised := by
    rw [Tallied.closeConn]
    split
    · rfl
    · rfl
  have hgoto : ((s.closeConn k).goto w .modFd).HeldIn (s.closeConn k).initialised := { hclose.held with }
  have hsame : SameUsers ((s.closeConn k).goto w .modFd) (((s.closeConn k).goto w .modFd).modFd k) :=
    sameUsers_modFd
  have hmod := hgoto.modFd hclose.own (hinit ▸ hk)
  exact hclose.server hmod.done ⟨hsame.fds, hsame.mSockfd, hsame.mUserCount⟩

/-- Every step keeps the count. -/
lemma Step.counted (h : s.Counted) (hs : Step s e s') : s'.Counted := by
  cases hs with
  | quiet hq hstep =>
    obtain ⟨hheld, hsame⟩ := hstep.quiet hq h.held h.own
    exact h.server hheld hsame
  | accept _ hb hfree _ => exact (h.next hb).accept hfree
  | read _ hb _ => exact (h.next hb).closeConn (h.held.head hb)
  | write _ hb _ _ => exact (h.next hb).closeConn (h.held.head hb)
  | @sent rest fd _ _ hb _ _ =>
    have hnext := h.next hb
    have hmod := hnext.server (hnext.held.modFd hnext.own (h.held.head hb)) sameUsers_modFd
    exact hmod.closeConn (h.held.head hb)
  | hangUp _ hb _ _ _ => exact (h.next hb).closeConn (h.held.head hb)
  | process hw _ => exact h.fail (h.held.worker _ _ hw)
  | closeConn hk => exact h.closeConn hk

/-! ### Runs -/

omit [DecidableEq W] in
lemma counted_start (maxRequest : ℕ) (mSockfd : ℕ → Option ℕ) :
    (start maxRequest mSockfd : Tallied W).Counted where
  held := ⟨nofun, nofun, nofun, nofun⟩
  own := nofun
  fds := rfl
  epollSet := rfl
  count := rfl
  resource fd := iff_of_false (fun hne => hne rfl) (Finset.notMem_empty fd)
  once := Handles.once_empty

/-- After every run the users are counted. -/
theorem run_tally {maxRequest : ℕ} {mSockfd : ℕ → Option ℕ} {es : List (Turn W)}
    (hrun : Trace Step (start maxRequest mSockfd) es s) : s.Tally :=
  (hrun.invariant (fun _ _ _ h hs => hs.counted h) (counted_start maxRequest mSockfd)).tally

/-- A user hangs up and is closed twice; then its number is given out again. -/
theorem run_tally_again : ∃ s : Tallied Unit, Trace Step (start 10000 fun _ => none)
      [.server (.epollWait [.listen]), .server (.accept 7),
        .server (.epollWait [.conn 7 ⟨false, false, true⟩]), .server .hangUp, .closeConn 7,
        .server (.epollWait [.listen]), .server (.accept 7)] s ∧
    s.mUserCount = 1 ∧ s.handles.closes = [some 0] ∧ s.Tally := by
  have hrun : Trace Step (start 10000 fun _ => none)
      [.server (.epollWait [.listen]), .server (.accept 7),
        .server (.epollWait [.conn 7 ⟨false, false, true⟩]), .server .hangUp, .closeConn 7,
        .server (.epollWait [.listen]), .server (.accept 7)] (_ : Tallied Unit) :=
    .cons (.quiet trivial (.epollWait rfl rfl (by decide) (by decide)))
      (.cons (.accept rfl rfl (by decide) (by decide))
      (.cons (.quiet trivial (.epollWait rfl rfl (by decide) (by decide)))
      (.cons (.hangUp rfl rfl rfl rfl rfl) (.cons (.closeConn (by decide))
      (.cons (.quiet trivial (.epollWait rfl rfl (by decide) (by decide)))
      (.cons (.accept rfl rfl (by decide) (by decide)) (.nil _)))))))
  exact ⟨_, hrun, rfl, rfl, run_tally hrun⟩

/-! ### The server that is counted -/

omit [DecidableEq W] in
lemma toWebServer_accept : (s.accept fd).toWebServer = s.toWebServer.accept fd := by
  rw [accept, WebServer.accept]
  dsimp only
  split
  · rfl
  · rfl

omit [DecidableEq W] in
lemma toWebServer_closeConn : (s.closeConn k).toWebServer = s.toWebServer.closeConn k := by
  rw [closeConn]
  cases hsock : s.mSockfd k with
  | none => rw [WebServer.closeConn, hsock]
  | some fd => rfl

/-- A call of `process` that closes its connection is what a worker does in the server. -/
lemma trace_fail (hw : s.pool.worker w = .process k) (hplace : s.place w = .read) :
    ∃ es, Trace WebServer.Step s.toWebServer es (s.fail w k).toWebServer := by
  have hanswer : WebServer.Step s.toWebServer (.answer w .failed) _ := .answer hw hplace
  rw [WebServer.answer] at hanswer
  have hfail : (s.fail w k).toWebServer =
      (((s.toWebServer.closeConn k).goto w .modFd).modFd k).done w := by
    rw [← toWebServer_closeConn]
    rfl
  rw [hfail, WebServer.closeConn]
  cases hsock : s.mSockfd k with
  | none =>
    rw [hsock] at hanswer
    exact ⟨_, .cons hanswer (.cons (.modFd (w := w) (k := k) hw (Function.update_self _ _ _)) (.nil _))⟩
  | some fd =>
    rw [hsock] at hanswer
    have hunset := WebServer.Step.unset (s := (s.removeFd fd).goto w .close) (w := w) (k := k) hw
      (Function.update_self _ _ _)
    have hplaces : (((s.removeFd fd).goto w .close).unset k).goto w .modFd =
        ((s.removeFd fd).unset k).goto w .modFd := by
      simp only [WebServer.goto, WebServer.unset, Function.update_idem]
    rw [hplaces] at hunset
    exact ⟨_, .cons hanswer (.cons hunset
      (.cons (.modFd (w := w) (k := k) hw (Function.update_self _ _ _)) (.nil _)))⟩

/-- With `process` in single steps the server does nothing that it does not do. -/
theorem Step.toWebServer {e : Event W} (hs : Step s (.server e) s') :
    ∃ es, Trace WebServer.Step s.toWebServer es s'.toWebServer := by
  cases hs with
  | quiet _ hstep => exact ⟨_, .cons hstep (.nil _)⟩
  | accept hidle hb hfree _ =>
    rw [toWebServer_accept]
    exact ⟨_, .cons (.accept hidle hb hfree) (.nil _)⟩
  | read hidle hb hin =>
    rw [toWebServer_closeConn]
    have hread : WebServer.Step s.toWebServer (.read false) _ := .read hidle hb hin
    exact ⟨_, .cons hread (.nil _)⟩
  | write hidle hb hin hout =>
    rw [toWebServer_closeConn]
    have hwrite : WebServer.Step s.toWebServer (.write .error) _ := .write hidle hb hin hout
    exact ⟨_, .cons hwrite (.nil _)⟩
  | sent hidle hb hin hout =>
    rw [toWebServer_closeConn]
    have hwrite : WebServer.Step s.toWebServer (.write .sent) _ := .write hidle hb hin hout
    exact ⟨_, .cons hwrite (.nil _)⟩
  | hangUp hidle hb hin hout hup =>
    rw [toWebServer_closeConn]
    exact ⟨_, .cons (.hangUp hidle hb hin hout hup) (.nil _)⟩
  | process hw hplace => exact trace_fail hw hplace

end Tallied

end LinuxServer.WebServer
