import LinuxServer.TcpudpReflect.Basic

/-!
# Who waits for the server

One call of `accept` and one of `recvfrom` for each event: a client that comes while the event of
another one is pending has no event of its own. So one client more waits for the server from then on,
and it is served in the order in which they came.
-/

namespace LinuxServer.TcpudpReflect

open Core

variable {s s' s'' : TcpudpReflect} {e : Event} {es : List Event} {fd : ℕ}

lemma Step.det (hs : Step s e s') (hs' : Step s e s'') : s' = s'' := by
  cases hs with
  | arrive hc =>
    cases hs' with
    | arrive hc' =>
      cases hc.symm.trans hc'
      rfl
  | finish hc =>
    cases hs' with
    | finish hc' =>
      cases hc.symm.trans hc'
      rfl
  | recvfrom _ _ _ _ hitems =>
    cases hs' with
    | recvfrom _ _ _ _ hitems' =>
      cases hitems.symm.trans hitems'
      rfl
  | enter _ hb =>
    cases hs' with
    | enter _ hb' =>
      cases hb.symm.trans hb'
      rfl
  | recv hp hc =>
    cases hs' with
    | recv hp' hc' =>
      cases hp.symm.trans hp'
      cases hc.symm.trans hc'
      rfl
  | recvEnd hp =>
    cases hs' with
    | recvEnd hp' =>
      cases hp.symm.trans hp'
      rfl
  | recvFails hp hc =>
    cases hs' with
    | recvFails hp' hc' =>
      cases hp.symm.trans hp'
      cases hc.symm.trans hc'
      rfl
  | recvClosed hp =>
    cases hs' with
    | recvClosed hp' =>
      cases hp.symm.trans hp'
      rfl
  | send hp =>
    cases hs' with
    | send hp' =>
      cases hp.symm.trans hp'
      rfl
  | _ =>
    cases hs'
    rfl

/-! ### The entry that is handled -/

/-- The connection that the loop reads. -/
def LoopAt.sockfd? : LoopAt → Option ℕ
  | .entry => none
  | .recv sockfd => some sockfd
  | .send sockfd _ _ => some sockfd

/-- The two sockets are no connections, and what the loop reads is the entry that it is at. -/
structure Ordered (s : TcpudpReflect) : Prop where
  ne : s.listenfd ≠ s.udpfd
  conn : s.conn s.listenfd = none ∧ s.conn s.udpfd = none
  reads : ∀ fd, s.place.sockfd? = some fd →
    fd ≠ s.listenfd ∧ fd ≠ s.udpfd ∧ ∃ e rest, s.batch = e :: rest ∧ e.fd = fd

lemma ordered_init {listenfd udpfd : ℕ} (hne : listenfd ≠ udpfd) : (init listenfd udpfd).Ordered :=
  ⟨hne, ⟨rfl, rfl⟩, by simp [init, LoopAt.sockfd?]⟩

lemma Ordered.next (h : s.Ordered) : s.next.Ordered :=
  ⟨h.ne, h.conn, by simp [TcpudpReflect.next, LoopAt.sockfd?]⟩

lemma Ordered.close (h : s.Ordered) (sockfd : ℕ) : (s.close sockfd).Ordered := by
  refine ⟨h.ne, ⟨?_, ?_⟩, h.reads⟩ <;>
    simp [TcpudpReflect.close, Function.update_apply, h.conn.1, h.conn.2]

/-- An open connection is neither of the two sockets. -/
lemma Ordered.update {c : Conn} (h : s.Ordered) (hc : s.conn fd = some c) (c' : Option Conn) :
    Function.update s.conn fd c' s.listenfd = none ∧ Function.update s.conn fd c' s.udpfd = none := by
  obtain ⟨hl, hu⟩ := h.conn
  refine ⟨?_, ?_⟩
  · rw [Function.update_of_ne (by rintro rfl; rw [hl] at hc; cases hc), hl]
  · rw [Function.update_of_ne (by rintro rfl; rw [hu] at hc; cases hc), hu]

lemma Step.ordered (hs : Step s e s') (h : s.Ordered) : s'.Ordered := by
  cases hs with
  | connect | datagram => exact ⟨h.ne, h.conn, h.reads⟩
  | arrive hc | finish hc => exact ⟨h.ne, h.update hc _, h.reads⟩
  | wait hp =>
    refine ⟨h.ne, ⟨?_, ?_⟩, by simp [TcpudpReflect.wait, hp, LoopAt.sockfd?]⟩ <;>
      simp [TcpudpReflect.wait, h.conn.1, h.conn.2]
  | accept _ _ _ _ _ hl hu =>
    refine ⟨h.ne, ⟨?_, ?_⟩, by simp [TcpudpReflect.accept, TcpudpReflect.next, LoopAt.sockfd?]⟩
    · simpa [TcpudpReflect.accept, TcpudpReflect.next, Function.update_of_ne hl.symm] using h.conn.1
    · simpa [TcpudpReflect.accept, TcpudpReflect.next, Function.update_of_ne hu.symm] using h.conn.2
  | acceptFails | recvfromFails | other | recvAgain => exact h.next
  | recvfrom => exact ⟨h.ne, h.conn, by simp [TcpudpReflect.recvfrom, TcpudpReflect.next, LoopAt.sockfd?]⟩
  | enter _ hb hl hu =>
    refine ⟨h.ne, h.conn, ?_⟩
    rintro _ ⟨⟩
    exact ⟨hl, hu, _, _, hb, rfl⟩
  | recv hp hc =>
    refine ⟨h.ne, h.update hc _, ?_⟩
    rintro _ ⟨⟩
    exact h.reads _ (by rw [hp]; rfl)
  | recvEnd => exact h.close _
  | @recvFails sockfd =>
    have hclose := (h.close sockfd).next
    exact ⟨hclose.ne, hclose.conn, hclose.reads⟩
  | recvClosed => exact (h.close _).next
  | send hp _ =>
    refine ⟨h.ne, h.conn, ?_⟩
    rintro _ ⟨⟩
    exact h.reads _ (by rw [hp]; rfl)

/-! ### The account -/

/-- How many entries of a descriptor are still to be handled. -/
def entries (s : TcpudpReflect) (fd : ℕ) : ℕ := (s.batch.map (·.fd)).count fd

lemma entries_next {r : Ready} {rest : List Ready} (hb : s.batch = r :: rest) :
    s.entries r.fd = s.next.entries r.fd + 1 := by
  simp [entries, TcpudpReflect.next, hb]

lemma entries_next_of_ne {r : Ready} {rest : List Ready} (hb : s.batch = r :: rest) (hne : r.fd ≠ fd) :
    s.next.entries fd = s.entries fd := by
  simp [entries, TcpudpReflect.next, hb, hne]

/-- What the loop owes to those who wait, with what is left over. -/
structure Owing (s : TcpudpReflect) (l : ℕ × ℕ) : Prop extends Ordered s where
  listen : s.listen.Owes (s.entries s.listenfd) l.1
  udp : s.udp.Owes (s.entries s.udpfd) l.2

variable {l : ℕ × ℕ}

/-- Everybody has an event of his own, and the call for it does not fail. -/
def Lone (s : TcpudpReflect) : Event → Prop
  | .connect => s.listen.event = false
  | .datagram _ => s.udp.event = false
  | .acceptFails => False
  | .recvfromFails => False
  | _ => True

/-- Nobody comes, and what is handled was neither of the two sockets. -/
lemma Owing.of_eq (h : s.Owing l) (ho : s'.Ordered) (hlistenfd : s'.listenfd = s.listenfd)
    (hudpfd : s'.udpfd = s.udpfd) (hl : s'.listen = s.listen) (hu : s'.udp = s.udp)
    (hel : s'.entries s.listenfd = s.entries s.listenfd) (heu : s'.entries s.udpfd = s.entries s.udpfd) :
    s'.Owing l := by
  refine ⟨ho, ?_, ?_⟩
  · rw [hl, hlistenfd, hel]
    exact h.listen
  · rw [hu, hudpfd, heu]
    exact h.udp

/-- The loop goes on from an entry that was neither of the two sockets. -/
lemma Owing.next {r : Ready} {rest : List Ready} (h : s.Owing l) (hb : s.batch = r :: rest)
    (hl : r.fd ≠ s.listenfd) (hu : r.fd ≠ s.udpfd) : s.next.Owing l :=
  h.of_eq h.toOrdered.next rfl rfl rfl rfl (entries_next_of_ne hb hl) (entries_next_of_ne hb hu)

lemma Owing.close (h : s.Owing l) (sockfd : ℕ) : (s.close sockfd).Owing l :=
  h.of_eq (h.toOrdered.close sockfd) rfl rfl rfl rfl rfl rfl

/-- The loop goes on from a connection. -/
lemma Owing.leave (h : s.Owing l) (hp : s.place.sockfd? = some fd) : s.next.Owing l := by
  obtain ⟨hl, hu, r, rest, hb, rfl⟩ := h.reads fd hp
  exact h.next hb hl hu

lemma Owing.wait {events : List Ready} (h : s.Owing l) (hs : Step s (.wait events) (s.wait events))
    (hb : s.batch = []) (hnd : (events.map (·.fd)).Nodup) (hevents : ∀ r ∈ events, s.Reportable r) :
    (s.wait events).Owing l := by
  have hnone : ∀ fd, s.entries fd = 0 := fun fd => by simp [entries, hb]
  refine ⟨hs.ordered h.toOrdered, ?_, ?_⟩
  · have howes := h.listen
    rw [hnone] at howes
    refine howes.report hnd fun hmem => ?_
    obtain ⟨r, hr, hfd⟩ := List.mem_map.mp hmem
    rcases hevents r hr with ⟨-, hevent⟩ | ⟨hu, -⟩ | ⟨c, hc, -⟩
    · exact hevent
    · exact absurd (hfd.symm.trans hu) h.ne
    · rw [hfd, h.conn.1] at hc
      cases hc
  · have howes := h.udp
    rw [hnone] at howes
    refine howes.report hnd fun hmem => ?_
    obtain ⟨r, hr, hfd⟩ := List.mem_map.mp hmem
    rcases hevents r hr with ⟨hl, -⟩ | ⟨-, hevent⟩ | ⟨c, hc, -⟩
    · exact absurd (hl.symm.trans hfd) h.ne
    · exact hevent
    · rw [hfd, h.conn.2] at hc
      cases hc

lemma Step.owing (hs : Step s e s') (h : s.Owing l) :
    ∃ l', s'.Owing l' ∧ l ≤ l' ∧ (s.Lone e ↔ l' = l) := by
  have ho := hs.ordered h.toOrdered
  have hsame : s'.Owing l → s.Lone e → ∃ l', s'.Owing l' ∧ l ≤ l' ∧ (s.Lone e ↔ l' = l) :=
    fun h' hlone => ⟨l, h', le_rfl, iff_of_true hlone rfl⟩
  cases hs with
  | connect =>
    refine ⟨(l.1 + s.listen.event.toNat, l.2), ⟨ho, h.listen.arrive (), h.udp⟩,
      ⟨Nat.le_add_right _ _, le_rfl⟩, ?_⟩
    show s.listen.event = false ↔ _
    cases s.listen.event <;> simp [Prod.ext_iff]
  | @datagram d =>
    refine ⟨(l.1, l.2 + s.udp.event.toNat), ⟨ho, h.listen, h.udp.arrive d⟩,
      ⟨le_rfl, Nat.le_add_right _ _⟩, ?_⟩
    show s.udp.event = false ↔ _
    cases s.udp.event <;> simp [Prod.ext_iff]
  | arrive | finish | enter | recv | send => exact hsame (h.of_eq ho rfl rfl rfl rfl rfl rfl) trivial
  | wait hp hb hne hle hnd hevents =>
    exact hsame (h.wait (.wait hp hb hne hle hnd hevents) hb hnd hevents) trivial
  | accept _ hb hfd =>
    refine hsame ⟨ho, ?_, ?_⟩ trivial
    · have howes := h.listen
      rw [← hfd, entries_next hb, hfd] at howes
      exact howes.read
    · have heq := entries_next_of_ne hb (hfd ▸ h.ne : _ ≠ s.udpfd)
      show s.udp.Owes (s.next.entries s.udpfd) l.2
      rw [heq]
      exact h.udp
  | acceptFails _ hb hfd =>
    refine ⟨(l.1 + 1, l.2), ⟨ho, ?_, ?_⟩, ⟨Nat.le_succ _, le_rfl⟩, ?_⟩
    · have howes := h.listen
      rw [← hfd, entries_next hb, hfd] at howes
      exact howes.skip
    · have heq := entries_next_of_ne hb (hfd ▸ h.ne : _ ≠ s.udpfd)
      show s.udp.Owes (s.next.entries s.udpfd) l.2
      rw [heq]
      exact h.udp
    · exact iff_of_false id (by simp [Prod.ext_iff])
  | recvfrom _ hb hl hfd =>
    refine hsame ⟨ho, ?_, ?_⟩ trivial
    · have heq := entries_next_of_ne hb hl
      show s.listen.Owes (s.next.entries s.listenfd) l.1
      rw [heq]
      exact h.listen
    · have howes := h.udp
      rw [← hfd, entries_next hb, hfd] at howes
      exact howes.read
  | recvfromFails _ hb hl hfd =>
    refine ⟨(l.1, l.2 + 1), ⟨ho, ?_, ?_⟩, ⟨le_rfl, Nat.le_succ _⟩, ?_⟩
    · have heq := entries_next_of_ne hb hl
      show s.listen.Owes (s.next.entries s.listenfd) l.1
      rw [heq]
      exact h.listen
    · have howes := h.udp
      rw [← hfd, entries_next hb, hfd] at howes
      exact howes.skip
    · exact iff_of_false id (by simp [Prod.ext_iff])
  | other _ hb hl hu => exact hsame (h.next hb hl hu) trivial
  | recvEnd => exact hsame (h.close _) trivial
  | recvAgain hp => exact hsame (h.leave (by rw [hp]; rfl)) trivial
  | recvFails hp =>
    refine hsame ?_ trivial
    exact (((h.close _).leave (by rw [TcpudpReflect.close, hp]; rfl)).of_eq ho rfl rfl rfl rfl rfl rfl)
  | recvClosed hp => exact hsame ((h.close _).leave (by rw [TcpudpReflect.close, hp]; rfl)) trivial

/-- A run that ends with every event handled and none pending has left nobody waiting, neither for `accept`
nor for `recvfrom`, if and only if nobody came while the event of another one was pending and none
of these calls has failed. -/
theorem run_waits_iff {listenfd udpfd : ℕ} (hne : listenfd ≠ udpfd) (hrun : Trace Step (init listenfd udpfd) es s)
    (hbatch : s.batch = []) (hl : s.listen.event = false) (hu : s.udp.event = false) :
    (s.listen.items = [] ∧ s.udp.items = []) ↔
      Trace (fun s e s' => Step s e s' ∧ s.Lone e) (init listenfd udpfd) es s := by
  have hinit : (init listenfd udpfd).Owing (0, 0) :=
    ⟨ordered_init hne, by simp [init, Descriptor.Owes, Descriptor.empty, entries],
      by simp [init, Descriptor.Owes, Descriptor.empty, entries]⟩
  have hstep : ∀ s l e s', Owing s l → Step s e s' → ∃ l', Owing s' l' ∧ l ≤ l' ∧ (Lone s e ↔ l' = l) :=
    fun _ _ _ _ h hs => hs.owing h
  obtain ⟨l, h, -, hiff⟩ := hrun.ledger (fun _ _ _ _ hs hs' => hs.det hs') hstep hinit
  have hnone : ∀ fd, s.entries fd = 0 := fun fd => by simp [entries, hbatch]
  have hlisten := h.listen
  have hudp := h.udp
  rw [hnone] at hlisten hudp
  rw [hiff, ← List.length_eq_zero_iff, ← List.length_eq_zero_iff, hlisten.length_eq hl, hudp.length_eq hu,
    Prod.ext_iff]

/-- Two datagrams come before the server wakes up: it answers the first one. -/
theorem run_waits_two : ∃ (es : List Event) (s : TcpudpReflect), Trace Step (init 3 4) es s ∧ s.batch = [] ∧
    s.udp.items = [⟨8, [98]⟩] ∧ ¬ Trace (fun s e s' => Step s e s' ∧ s.Lone e) (init 3 4) es s := by
  have hready : ∀ r ∈ [(⟨4, true⟩ : Ready)],
      (((init 3 4).datagram ⟨7, [97]⟩).datagram ⟨8, [98]⟩).Reportable r := by
    intro r hr
    rw [List.mem_singleton.mp hr]
    exact .inr (.inl ⟨rfl, rfl⟩)
  have hrun : Trace Step (init 3 4)
      [.datagram ⟨7, [97]⟩, .datagram ⟨8, [98]⟩, .wait [⟨4, true⟩], .recvfrom] _ :=
    .cons .datagram (.cons .datagram
      (.cons (.wait rfl rfl (by simp) (by decide) (by decide) hready)
      (.cons (.recvfrom rfl rfl (by decide) rfl rfl) (.nil _))))
  refine ⟨_, _, hrun, rfl, rfl, fun hlone => ?_⟩
  have hwaits := ((run_waits_iff (by decide) hrun rfl rfl rfl).mpr hlone).2
  cases hwaits

/-! ### The answers -/

structure Answered (s : TcpudpReflect) : Prop where
  came : s.asked ++ s.udp.items = s.came
  replies : s.replies = (s.asked.filter (·.data ≠ [])).map reply

lemma Step.answered (hs : Step s e s') (h : s.Answered) : s'.Answered := by
  cases hs with
  | datagram =>
    refine ⟨?_, h.replies⟩
    show s.asked ++ (s.udp.items ++ _) = s.came ++ _
    rw [← List.append_assoc, h.came]
  | wait =>
    refine ⟨?_, h.replies⟩
    refine Eq.trans (congrArg (s.asked ++ ·) ?_) h.came
    show (if _ then _ else _ : Descriptor Datagram).items = _
    split <;> rfl
  | @recvfrom _ _ d _ _ _ _ _ hitems =>
    refine ⟨?_, ?_⟩
    · have hcame := h.came
      rw [hitems] at hcame
      show s.asked ++ [d] ++ s.udp.items.tail = s.came
      rw [hitems, List.append_assoc]
      exact hcame
    · show (if d.data = [] then s.replies else s.replies ++ [reply d]) = ((s.asked ++ [d]).filter _).map reply
      rw [List.filter_append, List.map_append, ← h.replies]
      split
      next hnil => simp [hnil]
      next hne => simp [hne]
  | _ => exact ⟨h.came, h.replies⟩

lemma length_reply (d : Datagram) : (reply d).data.length = udpBufferSize - 1 := by
  have hle : (d.data.take (udpBufferSize - 1)).length ≤ udpBufferSize - 1 := List.length_take_le _ _
  simp only [reply, List.length_append, List.length_replicate]
  omega

/-- In every run, the datagrams are got in the order in which they came, and each one that is not empty is
answered, to where it is from: always with 1023 bytes, which are the datagram and NULs behind it, or
its front when it is longer. -/
theorem run_replies {listenfd udpfd : ℕ} (hrun : Trace Step (init listenfd udpfd) es s) :
    s.asked ++ s.udp.items = s.came ∧ s.replies = (s.asked.filter (·.data ≠ [])).map reply ∧
      ∀ r ∈ s.replies, r.data.length = udpBufferSize - 1 := by
  have h : s.Answered := hrun.invariant (fun _ _ _ h hs => hs.answered h) ⟨rfl, rfl⟩
  refine ⟨h.came, h.replies, fun r hr => ?_⟩
  rw [h.replies] at hr
  obtain ⟨d, -, rfl⟩ := List.mem_map.mp hr
  exact length_reply d

/-- The answer to one byte. -/
theorem run_replies_one : ∃ (es : List Event) (s : TcpudpReflect), Trace Step (init 3 4) es s ∧
    s.replies = [⟨7, [97] ++ .replicate 1022 0⟩] ∧ ∀ r ∈ s.replies, r.data.length = 1023 := by
  have hready : ∀ r ∈ [(⟨4, true⟩ : Ready)], ((init 3 4).datagram ⟨7, [97]⟩).Reportable r := by
    intro r hr
    rw [List.mem_singleton.mp hr]
    exact .inr (.inl ⟨rfl, rfl⟩)
  have hrun : Trace Step (init 3 4) [.datagram ⟨7, [97]⟩, .wait [⟨4, true⟩], .recvfrom] _ :=
    .cons .datagram (.cons (.wait rfl rfl (by simp) (by decide) (by decide) hready)
      (.cons (.recvfrom rfl rfl (by decide) rfl rfl) (.nil _)))
  exact ⟨_, _, hrun, rfl, (run_replies hrun).2.2⟩

end LinuxServer.TcpudpReflect
