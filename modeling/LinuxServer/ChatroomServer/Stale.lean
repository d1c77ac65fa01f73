import LinuxServer.ChatroomServer.Relay

/-!
# What the chat server sends

The users are not initialised, and whatever is sent to a user is what stood in `write_buf` of some user
before: nothing else is ever written there but NULL, and the copy of another user. What is left over
there is any pointer; it is taken as the text that it points to.
-/

namespace LinuxServer.ChatroomServer

open Core

variable {s t : ChatroomServer} {e : Event} {i : ℕ} {connfd : ℤ} {received : Recv}

/-- Whatever is to be written to a user of `t` is to be written to a user of `s`. -/
def Inherits (s t : ChatroomServer) : Prop :=
  ∀ fd text, (t.users fd).writeBuf = some text → ∃ fd', (s.users fd').writeBuf = some text

lemma inherits_of_users (h : t.users = s.users) : s.Inherits t := by
  intro fd text htext
  rw [h] at htext
  exact ⟨fd, htext⟩

lemma Still.inherits (h : s.Still t) : s.Inherits t := by
  intro fd text htext
  rw [h.writeBuf] at htext
  exact ⟨fd, htext⟩

lemma Inherits.trans {u : ChatroomServer} (h : s.Inherits t) (h' : t.Inherits u) : s.Inherits u := by
  intro fd text htext
  obtain ⟨fd', htext'⟩ := h' fd text htext
  exact h fd' text htext'

/-- One user is written, with nothing new to be written to it. -/
lemma inherits_of_update {fd : ℤ} {d : ClientData} (h : t.users = Function.update s.users fd d)
    (hd : ∀ text, d.writeBuf = some text → ∃ fd', (s.users fd').writeBuf = some text) : s.Inherits t := by
  intro fd' text htext
  rw [h] at htext
  by_cases hfd : fd' = fd
  · subst hfd
    rw [Function.update_self] at htext
    exact hd text htext
  · rw [Function.update_of_ne hfd] at htext
    exact ⟨fd', htext⟩

lemma inherits_copyLast (s : ChatroomServer) (i : ℕ) : s.Inherits (s.copyLast i) :=
  inherits_of_update rfl fun _ htext => ⟨_, htext⟩

lemma users_close {fd : ℤ} (h : s.close fd = some t) : t.users = s.users := by
  rw [close] at h
  split at h
  next =>
    cases h
    rfl
  next => cases h

lemma users_moveLast (h : s.moveLast i = some t) : t.users = s.users := by
  rw [moveLast] at h
  split at h
  next => cases h
  next =>
    cases h
    rfl

lemma inherits_hangUp (h : s.hangUp i = some t) : s.Inherits t := by
  obtain ⟨u, hclose, hmove⟩ := Option.bind_eq_some_iff.mp h
  refine (inherits_copyLast s i).trans (inherits_of_users ?_)
  exact (users_moveLast hmove).trans (users_close hclose)

lemma inherits_readFails (h : s.readFails i = some t) : s.Inherits t := by
  obtain ⟨u, hclose, hmove⟩ := Option.bind_eq_some_iff.mp h
  refine (inherits_of_users (users_close hclose)).trans ?_
  exact (inherits_copyLast u i).trans (inherits_of_users (users_moveLast hmove))

lemma inherits_accept (h : s.accept i connfd = some t) : s.Inherits t := by
  rw [accept] at h
  split at h
  next =>
    cases h
    exact inherits_of_users rfl
  next =>
    dsimp only at h
    split at h
    next =>
      obtain ⟨u, hclose, rfl⟩ := Option.map_eq_some_iff.mp h
      have husers := users_close hclose
      exact inherits_of_users husers
    next =>
      cases h
      exact inherits_of_users rfl

lemma inherits_read (h : s.read i received = some t) : s.Inherits t := by
  rw [read.eq_def] at h
  cases received with
  | error again =>
    have hreceive := (still_receive (s := s) (s.fds i).fd []).inherits
    dsimp only at h
    split at h
    next =>
      cases h
      exact hreceive.trans (inherits_of_users rfl)
    next => exact hreceive.trans (inherits_readFails h)
  | bytes data =>
    refine (still_receive (s := s) (s.fds i).fd data).inherits.trans (inherits_of_users ?_)
    dsimp only at h
    cases h
    split <;> rfl

lemma inherits_write (s : ChatroomServer) (i : ℕ) : s.Inherits (s.write i) := by
  rw [write]
  dsimp only
  split
  next => exact inherits_of_users rfl
  next =>
    refine inherits_of_update rfl fun text htext => ?_
    cases htext

lemma Step.inherits (hs : Step s e t) : s.Inherits t := by
  cases hs with
  | poll => exact inherits_of_users rfl
  | @examine _ i connfd received hi _ ht =>
    rw [examine_eq] at ht
    have hlook : s.Inherits (s.look i) := inherits_of_users rfl
    cases hb : s.branch i with
    | accept =>
      rw [hb] at ht
      exact hlook.trans (inherits_accept ht)
    | read =>
      rw [hb] at ht
      exact hlook.trans (inherits_read ht)
    | hangUp =>
      rw [hb] at ht
      exact hlook.trans (inherits_hangUp ht)
    | write =>
      rw [hb] at ht
      cases ht
      exact hlook.trans (inherits_write (s.look i) i)
    | skip =>
      rw [hb] at ht
      cases ht
      exact inherits_of_users rfl

/-- In every run, whatever is sent stood in `write_buf` of some user before the first user came, so
nothing that is read from a user is ever sent to anybody. -/
theorem run_sends_stale {listenfd : ℤ} {fds : ℕ → PollFd} {users : ℤ → ClientData} {es : List Event}
    {text : List UInt8} (hrun : Trace Step (start listenfd fds users) es s) (hsends : s.sends e = some (i, text)) :
    ∃ fd, (users fd).writeBuf = some text := by
  have h : (start listenfd fds users).Inherits s :=
    hrun.invariant (fun _ _ _ h hs => h.trans hs.inherits) (inherits_of_users rfl)
  obtain ⟨-, -, htext⟩ := sends_eq_some hsends
  exact h _ text htext

/-- The user 7 comes to where a text stood: when it says something itself, it is sent that text. -/
theorem run_sends_seven : ∃ (users : ℤ → ClientData) (es : List Event) (s : ChatroomServer) (e : Event),
    Trace Step (start 3 (fun _ => ⟨0, 0, 0⟩) users) es s ∧ s.sends e = some (1, [0x78]) ∧
      ∃ fd, (users fd).writeBuf = some [0x78] := by
  have hrun : Trace Step (start 3 (fun _ => ⟨0, 0, 0⟩) fun fd => ⟨if fd = 7 then some [0x78] else none, []⟩)
      [.poll fun _ => pollIn, .examine 7 (.bytes []), .examine (-1) (.bytes []),
        .poll fun j => if j = 1 then pollIn else 0, .examine (-1) (.bytes []),
        .examine (-1) (.bytes [0x68, 0x69]), .poll fun j => if j = 1 then pollOut else 0,
        .examine (-1) (.bytes [])] _ :=
    .cons (.poll rfl (by decide)) (.cons (.examine rfl (by decide) rfl) (.cons (.examine rfl (by decide) rfl)
      (.cons (.poll rfl (by decide)) (.cons (.examine rfl (by decide) rfl) (.cons (.examine rfl (by decide) rfl)
      (.cons (.poll rfl (by decide)) (.cons (.examine rfl (by decide) rfl) (.nil _))))))))
  exact ⟨_, _, _, .examine (-1) (.bytes []), hrun, rfl,
    run_sends_stale (e := .examine (-1) (.bytes [])) (i := 1) hrun rfl⟩

end LinuxServer.ChatroomServer
