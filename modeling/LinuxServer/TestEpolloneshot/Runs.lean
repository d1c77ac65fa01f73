import LinuxServer.TestEpolloneshot.Basic
import LinuxServer.Core.Places

/-!
# Who holds a connection

A connection that is not armed is to be in one pair of hands: it is an entry of `events` that is still
to be handled, or one thread reads it. A thread that has not read its argument yet has in its hands
what stands in `fds_for_new_worker`, and nothing when the main loop has left the block.
-/

namespace LinuxServer.TestEpolloneshot

open Core

variable {W : Type*} [Fintype W] {s s' : TestEpolloneshot W} {fd : ℕ}

/-- The connection that a thread reads. -/
def WorkerAt.sockfd? (arg : Option ℕ) : WorkerAt → Option ℕ
  | .none => Option.none
  | .start => arg
  | .recv sockfd _ => some sockfd
  | .print sockfd _ _ _ => some sockfd
  | .close sockfd => some sockfd
  | .reset sockfd => some sockfd
  | .done => Option.none

/-- How many threads read the connection. -/
def readers (s : TestEpolloneshot W) (fd : ℕ) : ℕ :=
  countAt (fun p => p.sockfd? s.arg = some fd) s.worker

def holders (s : TestEpolloneshot W) (fd : ℕ) : ℕ := (s.batch.map (·.fd)).count fd + s.readers fd

/-- How many are to hold a connection. -/
def due : Option Conn → ℕ
  | none => 0
  | some c => if c.stream.armed then 0 else 1

def HeldOnce (s : TestEpolloneshot W) : Prop :=
  ∀ fd, fd ≠ s.listenfd → s.holders fd = due (s.conn fd)

/-- What a run keeps as long as every connection is held once. -/
structure Sound (s : TestEpolloneshot W) : Prop where
  held : s.HeldOnce
  start : ∀ w, s.worker w = .start → ∃ sockfd, s.arg = some sockfd ∧ sockfd ≠ s.listenfd

omit [Fintype W] in
lemma due_le_one (c : Option Conn) : due c ≤ 1 := by
  cases c with
  | none => exact Nat.zero_le 1
  | some c =>
    rw [due]
    split <;> decide

lemma sound_init (listenfd : ℕ) : (init listenfd : TestEpolloneshot W).Sound := by
  refine ⟨fun fd _ => ?_, fun w hw => by cases hw⟩
  have hreaders : (init listenfd : TestEpolloneshot W).readers fd = 0 :=
    countAt_eq_zero.mpr fun w => by simp [init, WorkerAt.sockfd?]
  rw [holders, hreaders]
  rfl

/-- Outside of the block every thread has read its argument. -/
lemma Sound.started (h : s.Sound) (harg : s.arg = none) (w : W) : s.worker w ≠ .start := by
  intro hw
  obtain ⟨sockfd, hsome, -⟩ := h.start w hw
  rw [harg] at hsome
  cases hsome

/-- Only what a connection is armed for counts. -/
lemma HeldOnce.of_eq (h : s.HeldOnce) (hl : s'.listenfd = s.listenfd)
    (hholders : ∀ fd, s'.holders fd = s.holders fd) (hdue : ∀ fd, due (s'.conn fd) = due (s.conn fd)) :
    s'.HeldOnce := by
  intro fd hfd
  rw [hholders, hdue]
  exact h fd (by rwa [hl] at hfd)

lemma due_update {conn : ℕ → Option Conn} {c c' : Conn} (hc : conn fd = some c)
    (h : c'.stream.armed = c.stream.armed) (fd' : ℕ) :
    due (Function.update conn fd (some c') fd') = due (conn fd') := by
  by_cases hfd : fd' = fd
  · subst hfd
    rw [Function.update_self, hc]
    simp only [due, h]
  · rw [Function.update_of_ne hfd]

/-! ### The main loop -/

omit [Fintype W] in
lemma count_cons_self {e : Ready} {rest : List Ready} (hb : s.batch = e :: rest) :
    (s.batch.map (·.fd)).count e.fd = (s.batch.tail.map (·.fd)).count e.fd + 1 := by
  simp [hb]

omit [Fintype W] in
lemma count_cons_of_ne {e : Ready} {rest : List Ready} (hb : s.batch = e :: rest) (hne : fd ≠ e.fd) :
    (s.batch.map (·.fd)).count fd = (s.batch.tail.map (·.fd)).count fd := by
  simp [hb, Ne.symm hne]

lemma holders_next {e : Ready} {rest : List Ready} (hb : s.batch = e :: rest) (hne : fd ≠ e.fd) :
    s.next.holders fd = s.holders fd := by
  rw [holders, holders, count_cons_of_ne hb hne]
  rfl

/-- The entry of the listening socket is nobody's. -/
lemma Sound.next {e : Ready} {rest : List Ready} (h : s.Sound) (hb : s.batch = e :: rest)
    (hl : e.fd = s.listenfd) : s.next.Sound := by
  refine ⟨fun fd hfd => ?_, h.start⟩
  rw [holders_next hb (by rw [hl]; exact hfd)]
  exact h.held fd hfd

lemma Sound.accept {e : Ready} {rest : List Ready} {connfd : ℕ} {data : Bytes} {ended : Bool}
    (h : s.Sound) (hb : s.batch = e :: rest) (hl : e.fd = s.listenfd) (hc : s.conn connfd = none)
    (hne : connfd ≠ s.listenfd) : (s.accept connfd data ended).Sound := by
  refine ⟨fun fd hfd => ?_, h.start⟩
  have hheld : s.next.holders fd = due (s.conn fd) := (h.next hb hl).held fd hfd
  show s.next.holders fd = due (Function.update s.conn connfd _ fd)
  by_cases hfd' : fd = connfd
  · subst hfd'
    rw [hheld, hc, Function.update_self]
    rfl
  · rw [hheld, Function.update_of_ne hfd']

omit [Fintype W] in
/-- What is reported was armed. -/
lemma armed_of_mem {events : List Ready} (hevents : ∀ e ∈ events, s.Reportable e)
    (hfd : fd ≠ s.listenfd) (hmem : fd ∈ events.map (·.fd)) :
    ∃ c, s.conn fd = some c ∧ c.stream.armed = true := by
  obtain ⟨e, he, rfl⟩ := List.mem_map.mp hmem
  rcases hevents e he with hlisten | ⟨c, hc, harmed, -⟩
  · exact absurd hlisten hfd
  · exact ⟨c, hc, harmed⟩

lemma Sound.wait {events : List Ready} (h : s.Sound) (hb : s.batch = [])
    (hnodup : (events.map (·.fd)).Nodup) (hevents : ∀ e ∈ events, s.Reportable e) :
    (s.wait events).Sound := by
  refine ⟨fun fd hfd => ?_, h.start⟩
  have hheld := h.held fd hfd
  rw [holders, hb] at hheld
  have hreaders : s.readers fd = due (s.conn fd) := by simpa using hheld
  show (events.map (·.fd)).count fd + s.readers fd = due (reportAll s.conn events fd)
  rw [hreaders, reportAll]
  split
  next hmem =>
    obtain ⟨c, hc, harmed⟩ := armed_of_mem hevents hfd hmem
    rw [List.count_eq_one_of_mem hnodup hmem, hc, due, harmed]
    rfl
  next hmem => rw [List.count_eq_zero_of_not_mem hmem, Nat.zero_add]

/-! ### A thread goes on -/

variable [DecidableEq W] {w : W} {place : WorkerAt}

lemma holders_goto_of_eq (h : place.sockfd? s.arg = (s.worker w).sockfd? s.arg) (fd : ℕ) :
    (s.goto w place).holders fd = s.holders fd := by
  have hiff : place.sockfd? s.arg = some fd ↔ (s.worker w).sockfd? s.arg = some fd := by rw [h]
  have hreaders : (s.goto w place).readers fd = s.readers fd := countAt_update_of_iff hiff
  rw [holders, hreaders]
  rfl

lemma start_goto (h : s.Sound) (hp : place ≠ .start) :
    ∀ v, (s.goto w place).worker v = .start → ∃ sockfd, s.arg = some sockfd ∧ sockfd ≠ s.listenfd := by
  intro v hv
  by_cases hvw : v = w
  · rw [hvw] at hv
    exact absurd (by simpa [goto] using hv) hp
  · exact h.start v (by simpa [goto, hvw] using hv)

/-- A thread goes on with its connection. -/
lemma Sound.goto (h : s.Sound) (hp : place.sockfd? s.arg = (s.worker w).sockfd? s.arg)
    (hne : place ≠ .start) : (s.goto w place).Sound :=
  ⟨h.held.of_eq rfl (holders_goto_of_eq hp) fun _ => rfl, start_goto h hne⟩

/-- A thread reads its argument, which is alive. -/
lemma Sound.start_read {sockfd : ℕ} {buf : Bytes} (h : s.Sound) (hw : s.worker w = .start)
    (hread : ∀ a ∈ s.arg, sockfd = a) : (s.goto w (.recv sockfd buf)).Sound := by
  obtain ⟨a, harg, -⟩ := h.start w hw
  refine h.goto ?_ (by simp)
  rw [hw, hread a harg]
  exact harg.symm

lemma holders_putDown {sockfd : ℕ} (hw : (s.worker w).sockfd? s.arg = some sockfd)
    (hp : place.sockfd? s.arg = none) : (s.goto w place).holders sockfd + 1 = s.holders sockfd := by
  have hnot : ¬ place.sockfd? s.arg = some sockfd := by simp [hp]
  have hreaders : (s.goto w place).readers sockfd + 1 = s.readers sockfd :=
    countAt_update_leave hw hnot
  rw [holders, holders, ← hreaders]
  rfl

lemma holders_putDown_of_ne {sockfd : ℕ} (hw : (s.worker w).sockfd? s.arg = some sockfd)
    (hp : place.sockfd? s.arg = none) (hne : fd ≠ sockfd) :
    (s.goto w place).holders fd = s.holders fd := by
  have hiff : place.sockfd? s.arg = some fd ↔ (s.worker w).sockfd? s.arg = some fd := by
    simp [hw, hp, Ne.symm hne]
  have hreaders : (s.goto w place).readers fd = s.readers fd := countAt_update_of_iff hiff
  rw [holders, hreaders]
  rfl

lemma Sound.recv {sockfd ret : ℕ} {buf : Bytes} {c : Conn} (h : s.Sound)
    (hw : s.worker w = .recv sockfd buf) (hc : s.conn sockfd = some c) :
    (s.recv w sockfd buf c ret).Sound := by
  have hgo : (s.goto w (.print sockfd (overwrite (c.stream.unread.take ret) buf) ret c.client)).Sound :=
    h.goto (by rw [hw]; rfl) (by simp)
  exact ⟨hgo.held.of_eq rfl (fun _ => rfl) (due_update hc rfl), hgo.start⟩

lemma Sound.print {sockfd ret client : ℕ} {buf : Bytes} (h : s.Sound)
    (hw : s.worker w = .print sockfd buf ret client) : (s.print w sockfd buf ret client).Sound := by
  have hgo : (s.goto w (.recv sockfd buf)).Sound := h.goto (by rw [hw]; rfl) (by simp)
  exact ⟨hgo.held, hgo.start⟩

/-- A thread puts its connection down, and the connection is armed or closed. -/
lemma Sound.putDown {sockfd : ℕ} {c : Option Conn} (h : s.Sound)
    (hw : (s.worker w).sockfd? s.arg = some sockfd)
    (hc : sockfd ≠ s.listenfd → due c = 0) :
    Sound { s.goto w .done with conn := Function.update s.conn sockfd c } := by
  refine ⟨fun fd hfd => ?_, start_goto h (by simp)⟩
  show (s.goto w .done).holders fd = due (Function.update s.conn sockfd c fd)
  by_cases hfd' : fd = sockfd
  · subst hfd'
    have hone := due_le_one (s.conn fd)
    have hheld := h.held fd hfd
    have hdown : (s.goto w .done).holders fd + 1 = s.holders fd := holders_putDown hw rfl
    rw [Function.update_self, hc hfd]
    omega
  · rw [Function.update_of_ne hfd', holders_putDown_of_ne hw rfl hfd']
    exact h.held fd hfd

lemma Sound.reset {sockfd : ℕ} (h : s.Sound) (hw : s.worker w = .reset sockfd) :
    (s.reset w sockfd).Sound := by
  refine h.putDown (by rw [hw]; rfl) fun _ => ?_
  cases s.conn sockfd <;> rfl

lemma Sound.close {sockfd : ℕ} (h : s.Sound) (hw : s.worker w = .close sockfd) :
    (s.close w sockfd).Sound :=
  h.putDown (by rw [hw]; rfl) fun _ => rfl

/-! ### A thread is created -/

omit [DecidableEq W] in
lemma readers_eq_of_started (h : ∀ v, s.worker v ≠ .start) (arg : Option ℕ) (fd : ℕ) :
    countAt (fun p => p.sockfd? arg = some fd) s.worker = s.readers fd := by
  have hsame : ∀ v, (s.worker v).sockfd? arg = (s.worker v).sockfd? s.arg := by
    intro v
    cases hv : s.worker v with
    | start => exact absurd hv (h v)
    | _ => rfl
  rw [readers, countAt_eq_sum, countAt_eq_sum]
  simp only [hsame]

lemma readers_dispatch_self {sockfd : ℕ} (h : ∀ v, s.worker v ≠ .start) (hw : s.worker w = .none) :
    (s.dispatch w sockfd).readers sockfd = s.readers sockfd + 1 := by
  rw [← readers_eq_of_started h (some sockfd)]
  exact countAt_update_enter (by simp [setArg, TestEpolloneshot.next, hw, WorkerAt.sockfd?]) rfl

lemma readers_dispatch_of_ne {sockfd : ℕ} (h : ∀ v, s.worker v ≠ .start) (hw : s.worker w = .none)
    (hne : fd ≠ sockfd) : (s.dispatch w sockfd).readers fd = s.readers fd := by
  rw [← readers_eq_of_started h (some sockfd)]
  have hnew : ¬ WorkerAt.start.sockfd? (some sockfd) = some fd := by
    simpa [WorkerAt.sockfd?] using Ne.symm hne
  have hold : ¬ (s.worker w).sockfd? (some sockfd) = some fd := by simp [hw, WorkerAt.sockfd?]
  exact countAt_update_of_iff (iff_of_false hnew hold)

/-- The entry goes to the new thread, and no other one is still to read its argument. -/
lemma Sound.dispatch {e : Ready} {rest : List Ready} (h : s.Sound) (harg : s.arg = none)
    (hb : s.batch = e :: rest) (hl : e.fd ≠ s.listenfd) (hw : s.worker w = .none) :
    (s.dispatch w e.fd).Sound := by
  have hstarted := h.started harg
  refine ⟨fun fd hfd => ?_, fun _ _ => ⟨e.fd, rfl, hl⟩⟩
  rw [show due ((s.dispatch w e.fd).conn fd) = s.holders fd from (h.held fd hfd).symm, holders, holders]
  show (s.batch.tail.map (·.fd)).count fd + _ = _
  by_cases hfd' : fd = e.fd
  · rw [hfd', readers_dispatch_self hstarted hw, count_cons_self hb]
    omega
  · rw [readers_dispatch_of_ne hstarted hw hfd', count_cons_of_ne hb hfd']

omit [DecidableEq W] in
/-- The block is left behind threads that have all read their argument. -/
lemma Sound.leave (h : s.Sound) (hstarted : ∀ w, s.worker w ≠ .start) : s.leave.Sound := by
  refine ⟨h.held.of_eq rfl (fun fd => ?_) fun _ => rfl, fun w hw => absurd hw (hstarted w)⟩
  rw [holders, holders, ← readers_eq_of_started hstarted none]
  rfl

omit [DecidableEq W] in
/-- A thread that has not read its argument when the block is left loses its connection. -/
lemma not_heldOnce_leave {v : W} (h : s.Sound) (hv : s.worker v = .start) : ¬ s.leave.HeldOnce := by
  intro hheld
  obtain ⟨sockfd, harg, hne⟩ := h.start v hv
  have hreads : (s.worker v).sockfd? s.arg = some sockfd := by rw [hv]; exact harg
  have hreader : 0 < s.readers sockfd := countAt_pos hreads
  have hthen := h.held sockfd hne
  have hone := due_le_one (s.conn sockfd)
  rw [holders] at hthen
  have hle : s.readers sockfd ≤ 1 := by omega
  have hnone : s.leave.readers sockfd = 0 := by
    refine countAt_eq_zero.mpr fun u hu => ?_
    have hplace : s.worker u ≠ .start := by
      intro hustart
      rw [show s.leave.worker u = .start from hustart] at hu
      cases hu
    have hsame : (s.worker u).sockfd? s.arg = some sockfd := by
      rw [← show (s.worker u).sockfd? none = some sockfd from hu]
      cases hplace' : s.worker u with
      | start => exact absurd hplace' hplace
      | _ => rfl
    rw [eq_of_countAt_le_one hle hsame hreads] at hplace
    exact hplace hv
  have hnow : s.leave.holders sockfd = due (s.conn sockfd) := hheld sockfd hne
  rw [holders, hnone] at hnow
  have hbatch : s.leave.batch = s.batch := rfl
  rw [hbatch] at hnow
  omega

omit [DecidableEq W] in
/-- The event of a connection is passed over. -/
lemma not_heldOnce_next {e : Ready} {rest : List Ready} (h : s.Sound) (hb : s.batch = e :: rest)
    (hl : e.fd ≠ s.listenfd) : ¬ s.next.HeldOnce := by
  intro hheld
  have hnow : s.next.holders e.fd = due (s.conn e.fd) := hheld e.fd hl
  rw [← h.held e.fd hl, holders, holders, count_cons_self hb] at hnow
  have hreaders : s.next.readers e.fd = s.readers e.fd := rfl
  have hbatch : s.next.batch = s.batch.tail := rfl
  rw [hreaders, hbatch] at hnow
  omega

omit [DecidableEq W] in
/-- The argument is written, and no thread is created for it. -/
lemma not_heldOnce_setArg {e : Ready} {rest : List Ready} (h : s.Sound) (harg : s.arg = none)
    (hb : s.batch = e :: rest) (hl : e.fd ≠ s.listenfd) : ¬ (s.setArg e.fd).HeldOnce := by
  intro hheld
  refine not_heldOnce_next h hb hl (hheld.of_eq rfl (fun fd => ?_) fun _ => rfl)
  have hreaders : (s.setArg e.fd).readers fd = s.readers fd :=
    readers_eq_of_started (h.started harg) (some e.fd) fd
  rw [holders, holders, hreaders]
  rfl

/-! ### Runs -/

/-- The main loop leaves its block when the thread has read its argument, an event of a connection has
`EPOLLIN`, and a thread is created for it. -/
def Prompt (s : TestEpolloneshot W) : Event W → Prop
  | .leave => ∀ v, s.worker v ≠ .start
  | .createFails => False
  | .other => False
  | _ => True

/-- Every step but these keeps who holds a connection. -/
lemma Step.sound {e : Event W} (hs : Step s e s') (h : s.Sound) (hp : s.Prompt e) : s'.Sound := by
  cases hs with
  | arrive hc => exact ⟨h.held.of_eq rfl (fun _ => rfl) (due_update hc rfl), h.start⟩
  | finish hc => exact ⟨h.held.of_eq rfl (fun _ => rfl) (due_update hc rfl), h.start⟩
  | wait _ hb _ _ hnodup hevents => exact h.wait hb hnodup hevents
  | accept _ hb hl hc hne => exact h.accept hb hl hc hne
  | acceptFails _ hb hl => exact h.next hb hl
  | dispatch harg hb hl _ hw => exact h.dispatch harg hb hl hw
  | leave => exact h.leave hp
  | createFails => exact hp.elim
  | other => exact hp.elim
  | start hw hread => exact h.start_read hw hread
  | recv hw hc => exact h.recv hw hc
  | recvEnd hw => exact h.goto (by rw [hw]; rfl) (by simp)
  | recvAgain hw => exact h.goto (by rw [hw]; rfl) (by simp)
  | recvFails => exact h
  | print hw => exact h.print hw
  | reset hw => exact h.reset hw
  | close hw => exact h.close hw

lemma Step.not_heldOnce {e : Event W} (hs : Step s e s') (h : s.Sound) (hp : ¬ s.Prompt e) :
    ¬ s'.HeldOnce := by
  cases hs with
  | leave =>
    obtain ⟨v, hv⟩ : ∃ v, s.worker v = .start := by simpa [Prompt] using hp
    exact not_heldOnce_leave h hv
  | createFails harg hb hl => exact not_heldOnce_setArg h harg hb hl
  | other _ hb hl => exact not_heldOnce_next h hb hl
  | _ => exact absurd trivial hp

/-- After every step of a run each connection that is not armed is in exactly one pair of hands, and
no other one is, if and only if the main loop never leaves its block before the new thread has read
its argument, every thread is created, and every event of a connection has `EPOLLIN`. -/
theorem run_heldOnce_iff {listenfd : ℕ} {es : List (Event W)} :
    Trace (fun s e s' => Step s e s' ∧ s'.HeldOnce) (init listenfd) es s ↔
      Trace (fun s e s' => Step s e s' ∧ s.Prompt e) (init listenfd) es s := by
  refine Trace.guard_iff (I := Sound) ?_ (sound_init listenfd)
  intro s e s' h hs
  refine ⟨⟨fun hheld => ?_, fun hp => (hs.sound h hp).held⟩, hs.sound h⟩
  by_contra hp
  exact hs.not_heldOnce h hp hheld

end LinuxServer.TestEpolloneshot
