import LinuxServer.CloseInactivateConn.Basic

/-!
# The alarms of the server that closes inactive connections

The chain from `alarm` to `tick`: the alarm that is armed, the handler that writes the signal into the
pipe, the pipe, the descriptors that `main` has registered with `epoll`, and the end of the event loop
when `epoll_wait` fails. `main` registers the listening socket only, and it leaves the loop when a
signal interrupts `epoll_wait`.
-/

namespace LinuxServer.CloseInactivateConn

open Core

/-- Two open descriptors are not one. -/
structure Setup extends Fixed where
  pipefd₀_ne : pipefd₀ ≠ listenfd

/-- The server, whether an alarm is armed, the signals in the pipe, those of the descriptors of `main` that
are registered with `epoll`, and whether the event loop was left by `break`. -/
structure Alarmed extends Server where
  armed : Bool
  pipe : List Signal
  registered : Finset ℕ
  broken : Bool

namespace Alarmed

/-- `addfd(epollfd, fd)` -/
def addfd (s : Alarmed) (fd : ℕ) : Alarmed := { s with registered := insert fd s.registered }

/-- `alarm(TIMESLOT)` -/
def alarm (s : Alarmed) : Alarmed := { s with armed := true }

/-- `main` up to the event loop. -/
def start (c : Setup) (users : ℕ → ClientData) (now : ℤ) : Alarmed :=
  (addfd ⟨.init c.toFixed users now, false, [], ∅, false⟩ c.listenfd).alarm

/-- `sig_handler(sig)` -/
def sigHandler (s : Alarmed) (sig : Signal) : Alarmed := { s with pipe := s.pipe ++ [sig] }

/-- `epoll_wait` returns -1, with `EINTR`, when the handler has interrupted it. -/
def interrupt (s : Alarmed) (interrupted : Bool) : Alarmed :=
  if interrupted then { s with broken := true } else s

/-- `sizeof(signals)` -/
def signalsSize : ℕ := 1024

/-- What `epoll_wait` reports, and what `recv` returns of the pipe. A client is registered as long as its
descriptor is open. -/
def Reports (c : Setup) (s : Alarmed) : Event → Prop
  | .epollWait batch => ∀ x ∈ batch,
      (x.1 = c.listenfd → c.listenfd ∈ s.registered) ∧
        (x.1 = c.pipefd₀ → c.pipefd₀ ∈ s.registered ∧ s.pipe ≠ [])
  | .signals sigs => sigs = s.pipe.take signalsSize
  | _ => True

/-- The state behind a step of the event loop that has made `t` of the server. -/
def next (s : Alarmed) (t : Server) : Event → Alarmed
  | .signals _ => { s with toServer := t, pipe := s.pipe.drop signalsSize }
  | .sweep _ => alarm { s with toServer := t }
  | _ => { s with toServer := t }

/-- A step of the event loop, or the arrival of a signal; `interrupted` says that `epoll_wait` is blocked
then. -/
inductive Event
  | loop (e : CloseInactivateConn.Event)
  | sigalrm (interrupted : Bool)
  | sigterm (interrupted : Bool)

inductive Step (c : Setup) : Alarmed → Event → Alarmed → Prop
  | loop {s : Alarmed} {e : CloseInactivateConn.Event} {t : Server} : s.broken = false →
      CloseInactivateConn.Step c.toFixed s.toServer e t → s.Reports c e → Step c s (.loop e) (s.next t e)
  | sigalrm {s : Alarmed} {interrupted : Bool} : s.broken = false → s.armed = true →
      (interrupted = true → s.batch = none) →
      Step c s (.sigalrm interrupted) (({ s with armed := false }.sigHandler .sigalrm).interrupt interrupted)
  | sigterm {s : Alarmed} {interrupted : Bool} : s.broken = false →
      (interrupted = true → s.batch = none) →
      Step c s (.sigterm interrupted) ((s.sigHandler .sigterm).interrupt interrupted)

/-- A step of a run in which no SIGTERM is received. -/
def Unterminated (c : Setup) (s : Alarmed) (e : Event) (s' : Alarmed) : Prop :=
  Step c s e s' ∧ ∀ interrupted, e ≠ .sigterm interrupted

/-- The event loop is running, and the next sweep is on its way. -/
structure Scheduled (c : Setup) (s : Alarmed) : Prop where
  running : s.broken = false ∧ s.stopServer = false
  sweep : s.armed = true ∨ .sigalrm ∈ s.pipe ∧ c.pipefd₀ ∈ s.registered ∨ s.timeout = true

/-- No alarm goes off. -/
def NoAlarm : Event → Prop
  | .sigalrm _ => False
  | _ => True

end Alarmed

/-! ### The flags of the event loop -/

namespace Server

variable {s s' : Server} {fd : ℕ} {cur : ℤ} {timer : Link}

/-- Of the variables of the loop only those of the connections are changed. -/
structure SameFlags (s s' : Server) : Prop where
  timeout : s'.timeout = s.timeout
  stopServer : s'.stopServer = s.stopServer
  batch : s'.batch = s.batch

lemma SameFlags.trans {s₁ s₂ s₃ : Server} (h : SameFlags s₁ s₂) (h' : SameFlags s₂ s₃) :
    SameFlags s₁ s₃ :=
  ⟨h'.timeout.trans h.timeout, h'.stopServer.trans h.stopServer, h'.batch.trans h.batch⟩

lemma sameFlags_setUser {f : ClientData → ClientData} (h : s.setUser fd f = some s') : s.SameFlags s' := by
  rw [setUser] at h
  split at h
  next =>
    cases h
    exact ⟨rfl, rfl, rfl⟩
  next => cases h

lemma sameFlags_cbFunc (h : s.cbFunc fd = some s') : s.SameFlags s' := by
  obtain ⟨u, -, h⟩ := Option.bind_eq_some_iff.mp h
  split at h
  next =>
    cases h
    exact ⟨rfl, rfl, rfl⟩
  next => cases h

lemma sameFlags_closeConn (h : s.closeConn fd timer = some s') : s.SameFlags s' := by
  obtain ⟨t, ht, h⟩ := Option.bind_eq_some_iff.mp h
  have hflags := sameFlags_cbFunc ht
  split at h
  next =>
    cases h
    exact hflags
  next =>
    obtain ⟨l, -, h⟩ := Option.bind_eq_some_iff.mp h
    cases h
    exact hflags.trans ⟨rfl, rfl, rfl⟩

lemma sameFlags_accept (h : s.accept fd cur = some s') : s.SameFlags s' := by
  obtain ⟨t, ht, h⟩ := Option.bind_eq_some_iff.mp h
  obtain ⟨t', ht', h⟩ := Option.bind_eq_some_iff.mp h
  obtain ⟨l, -, h⟩ := Option.bind_eq_some_iff.mp h
  cases h
  have hset := sameFlags_setUser ht
  have hset' := sameFlags_setUser ht'
  have hfirst : s.SameFlags t := ⟨hset.timeout, hset.stopServer, hset.batch⟩
  have hsecond : s.SameFlags t' := hfirst.trans ⟨hset'.timeout, hset'.stopServer, hset'.batch⟩
  exact hsecond.trans ⟨rfl, rfl, rfl⟩

lemma sameFlags_read {r : Received} (h : s.read fd r = some s') : s.SameFlags s' := by
  obtain ⟨u, -, h⟩ := Option.bind_eq_some_iff.mp h
  cases r with
  | error => exact sameFlags_closeConn h
  | eof => exact sameFlags_closeConn h
  | eagain =>
    cases h
    exact ⟨rfl, rfl, rfl⟩
  | data cur =>
    dsimp only at h
    split at h
    next =>
      cases h
      exact ⟨rfl, rfl, rfl⟩
    next =>
      obtain ⟨l, -, h⟩ := Option.bind_eq_some_iff.mp h
      obtain ⟨l', -, h⟩ := Option.bind_eq_some_iff.mp h
      cases h
      exact ⟨rfl, rfl, rfl⟩

end Server

/-! ### Runs -/

namespace Alarmed

variable {c : Setup} {s s' : Alarmed} {e : Event}

/-- Before the first alarm. -/
structure Quiet (c : Setup) (s : Alarmed) : Prop where
  armed : s.armed = true
  pipe : s.pipe = []
  registered : s.registered = {c.listenfd}
  timeout : s.timeout = false
  running : s.broken = false ∧ s.stopServer = false
  /-- `epoll_wait` does not report the pipe. -/
  batch : ∀ batch, s.batch = some batch → ∀ x ∈ batch, x.1 ≠ c.pipefd₀

lemma quiet_start {users : ℕ → ClientData} {now : ℤ} : (start c users now).Quiet c where
  armed := rfl
  pipe := rfl
  registered := rfl
  timeout := rfl
  running := ⟨rfl, rfl⟩
  batch _ h := by cases h

lemma Quiet.scheduled (h : s.Quiet c) : s.Scheduled c := ⟨h.running, .inl h.armed⟩

lemma Quiet.pipefd₀_notMem (h : s.Quiet c) : c.pipefd₀ ∉ s.registered := by
  rw [h.registered, Finset.mem_singleton]
  exact c.pipefd₀_ne

/-- The loop does something with a connection. -/
lemma Quiet.sameFlags {t u : Server} {x : ℕ × Bool} {rest : List (ℕ × Bool)} (h : s.Quiet c)
    (hbatch : s.batch = some (x :: rest)) (hu : u = { s.toServer with batch := some rest })
    (ht : u.SameFlags t) : Quiet c { s with toServer := t } := by
  subst hu
  refine { h with timeout := ht.timeout.trans h.timeout, running := ⟨h.running.1, ?_⟩, batch := ?_ }
  · exact ht.stopServer.trans h.running.2
  · intro batch heq y hy
    cases ht.batch.symm.trans heq
    exact h.batch _ hbatch y (List.mem_cons_of_mem _ hy)

/-- Without an alarm the loop goes on as it is. -/
lemma Quiet.loop {e : CloseInactivateConn.Event} {t : Server} (h : s.Quiet c)
    (hs : CloseInactivateConn.Step c.toFixed s.toServer e t) (hreports : s.Reports c e) :
    (s.next t e).Quiet c := by
  cases hs with
  | epollWait =>
    refine { h with batch := ?_ }
    intro batch' heq x hx hpipe
    cases heq
    exact h.pipefd₀_notMem ((hreports x hx).2 hpipe).1
  | accept hbatch _ _ _ haccept => exact h.sameFlags hbatch rfl (Server.sameFlags_accept haccept)
  | signals hbatch => exact absurd rfl (h.batch _ hbatch _ List.mem_cons_self)
  | read hbatch _ _ _ hread => exact h.sameFlags hbatch rfl (Server.sameFlags_read hread)
  | ignore hbatch => exact h.sameFlags hbatch rfl ⟨rfl, rfl, rfl⟩
  | sweep _ htimeout => cases htimeout.symm.trans h.timeout
  | again =>
    refine { h with batch := ?_ }
    intro batch heq
    cases heq

/-- Once the alarm has gone off, no byte of the pipe is reported. -/
lemma Quiet.sigalrm {interrupted : Bool} (h : s.Quiet c) :
    ¬ Scheduled c (({ s with armed := false }.sigHandler .sigalrm).interrupt interrupted) := by
  intro hsched
  cases interrupted with
  | true => cases hsched.running.1
  | false =>
    rcases hsched.sweep with harmed | ⟨-, hregistered⟩ | htimeout
    · cases harmed
    · exact h.pipefd₀_notMem hregistered
    · cases htimeout.symm.trans h.timeout

lemma Unterminated.scheduled_iff (hs : Unterminated c s e s') (h : s.Quiet c) :
    (s'.Scheduled c ↔ NoAlarm e) ∧ (NoAlarm e → s'.Quiet c) := by
  obtain ⟨hs, hterm⟩ := hs
  cases hs with
  | loop _ hloop hreports =>
    have hquiet := h.loop hloop hreports
    exact ⟨iff_of_true hquiet.scheduled trivial, fun _ => hquiet⟩
  | sigalrm => exact ⟨iff_of_false h.sigalrm not_false, fun hno => hno.elim⟩
  | sigterm => exact absurd rfl (hterm _)

/-- In a run without SIGTERM the sweep stays scheduled if and only if no alarm goes off. -/
theorem run_scheduled_iff {users : ℕ → ClientData} {now : ℤ} {es : List Event} :
    Trace (fun s e s' => Unterminated c s e s' ∧ s'.Scheduled c) (start c users now) es s ↔
      Trace (fun s e s' => Unterminated c s e s' ∧ NoAlarm e) (start c users now) es s :=
  Trace.guard_iff (fun _ _ _ h hs => hs.scheduled_iff h) quiet_start

/-- The descriptors of a server: 3 is the listening socket, 4 is `epollfd`, 5 and 6 are the pipe. -/
def setup : Setup := ⟨⟨3, 5, Finset.range 7, by decide, by decide⟩, by decide⟩

/-- The first alarm ends the event loop, when it comes in `epoll_wait`, or it stays in the pipe. -/
theorem run_notScheduled :
    (∃ s, Trace (Unterminated setup) (start setup (fun _ => ⟨0, none⟩) 0) [.sigalrm true] s ∧
      s.broken = true ∧ ¬ s.Scheduled setup) ∧
    ∃ s, Trace (Unterminated setup) (start setup (fun _ => ⟨0, none⟩) 0) [.sigalrm false] s ∧
      s.broken = false ∧ s.armed = false ∧ s.pipe = [.sigalrm] ∧ s.registered = {3} ∧
        ¬ s.Scheduled setup := by
  have hstep : ∀ interrupted, Unterminated setup (start setup (fun _ => ⟨0, none⟩) 0)
      (.sigalrm interrupted) _ :=
    fun _ => ⟨.sigalrm rfl rfl fun _ => rfl, fun _ h => by cases h⟩
  constructor
  · exact ⟨_, .cons (hstep true) (.nil _), rfl, quiet_start.sigalrm⟩
  · exact ⟨_, .cons (hstep false) (.nil _), rfl, rfl, rfl, rfl, quiet_start.sigalrm⟩

end Alarmed

end LinuxServer.CloseInactivateConn
