import LinuxServer.TcpudpReflect.Waiting

/-!
# What is sent back

A connection that is reported is read until there is nothing left, so nothing on it is overlooked, and a
connection at its end is closed when all of it was read. What is read is sent back but for what a
`send` does not take: nobody looks at what `send` returns.
-/

namespace LinuxServer.TcpudpReflect

open Core

variable {s s' : TcpudpReflect} {e : Event} {es : List Event} {fd : ℕ} {c c' : Conn}

/-! ### Nothing is overlooked -/

/-- Nothing is overlooked on a connection but while it is an entry to be handled. -/
structure Watching (s : TcpudpReflect) : Prop extends Ordered s where
  watch : ∀ fd c, s.conn fd = some c →
    c.stream.armed = true ∧ (c.stream.Noticed ∨ ⟨fd, true⟩ ∈ s.batch)

/-- The entry of somebody else is handled. -/
lemma mem_next {r : Ready} {rest : List Ready} (hb : s.batch = r :: rest) (hne : r ≠ ⟨fd, true⟩)
    (hmem : ⟨fd, true⟩ ∈ s.batch) : ⟨fd, true⟩ ∈ s.next.batch := by
  rw [hb] at hmem
  show _ ∈ s.batch.tail
  rw [hb]
  exact (List.mem_cons.mp hmem).resolve_left (Ne.symm hne)

/-- One connection changes. -/
lemma Watching.change {x : Option Conn} (h : s.Watching) (ho : s'.Ordered)
    (hconn : s'.conn = Function.update s.conn fd x)
    (hbatch : ∀ fd', fd' ≠ fd → ⟨fd', true⟩ ∈ s.batch → ⟨fd', true⟩ ∈ s'.batch)
    (hx : ∀ c, x = some c → c.stream.armed = true ∧ (c.stream.Noticed ∨ ⟨fd, true⟩ ∈ s'.batch)) :
    s'.Watching := by
  refine ⟨ho, fun fd' c hc => ?_⟩
  rw [hconn] at hc
  by_cases hfd : fd' = fd
  · subst hfd
    rw [Function.update_self] at hc
    exact hx c hc
  · rw [Function.update_of_ne hfd] at hc
    exact (h.watch fd' c hc).imp_right (Or.imp_right (hbatch fd' hfd))

/-- The loop goes on from an entry that is not of an open connection with something to read. -/
lemma Watching.next {r : Ready} {rest : List Ready} (h : s.Watching) (hb : s.batch = r :: rest)
    (hdone : r.epollIn = true → ∀ c, s.conn r.fd = some c → c.stream.Noticed) : s.next.Watching := by
  refine ⟨h.toOrdered.next, fun fd c hc => ?_⟩
  obtain ⟨harmed, hor⟩ := h.watch fd c hc
  refine ⟨harmed, ?_⟩
  by_cases hr : r = ⟨fd, true⟩
  · subst hr
    exact .inl (hdone rfl c hc)
  · exact hor.imp_right (mem_next hb hr)

lemma Watching.close (h : s.Watching) (sockfd : ℕ) : (s.close sockfd).Watching :=
  h.change (h.toOrdered.close sockfd) rfl (fun _ _ hmem => hmem) (by simp)

/-- The loop goes on from a closed connection. -/
lemma Watching.leave (h : s.Watching) (hp : s.place.sockfd? = some fd) : (s.close fd).next.Watching := by
  obtain ⟨-, -, r, rest, hb, rfl⟩ := h.reads fd hp
  refine (h.close r.fd).next hb fun _ c hc => ?_
  simp [TcpudpReflect.close] at hc

lemma Watching.wait {events : List Ready} (h : s.Watching) (ho : (s.wait events).Ordered) (hb : s.batch = [])
    (hevents : ∀ r ∈ events, s.Reportable r) : (s.wait events).Watching := by
  refine ⟨ho, fun fd c hc => ?_⟩
  change (if fd ∈ events.map (·.fd) then _ else _ : Option Conn) = some c at hc
  split at hc
  next hmem =>
    obtain ⟨c₀, hc₀, rfl⟩ := Option.map_eq_some_iff.mp hc
    refine ⟨(h.watch fd c₀ hc₀).1, ?_⟩
    obtain ⟨⟨fd', epollIn⟩, hr, rfl⟩ := List.mem_map.mp hmem
    rcases hevents _ hr with ⟨rfl, -⟩ | ⟨rfl, -⟩ | ⟨c₁, hc₁, hin, -⟩
    · rw [h.conn.1] at hc₀
      cases hc₀
    · rw [h.conn.2] at hc₀
      cases hc₀
    · obtain rfl : c₀ = c₁ := Option.some_inj.mp (hc₀.symm.trans hc₁)
      cases epollIn with
      | true => exact .inr hr
      | false =>
        refine .inl fun _ hread => ?_
        have hfalse : c₀.stream.readable = false := hin.symm
        exact absurd (hfalse.symm.trans hread) Bool.false_ne_true
  next =>
    have hwatch := h.watch fd c hc
    rw [hb] at hwatch
    exact hwatch.imp_right fun hor => hor.imp_right fun hmem => by cases hmem

lemma Step.watching (hs : Step s e s') (h : s.Watching) : s'.Watching := by
  have ho := hs.ordered h.toOrdered
  cases hs with
  | connect | datagram => exact ⟨ho, h.watch⟩
  | arrive hc | finish hc =>
    refine h.change ho rfl (fun _ _ hmem => hmem) ?_
    rintro _ ⟨⟩
    exact ⟨(h.watch _ _ hc).1, .inl (Watched.noticed_notify _)⟩
  | wait _ hb _ _ _ hevents => exact h.wait ho hb hevents
  | accept _ hb hfd _ hc =>
    have hnext := h.next hb fun _ c hc => by
      rw [hfd, h.conn.1] at hc
      cases hc
    refine hnext.change ho rfl (fun _ _ hmem => hmem) ?_
    rintro _ ⟨⟩
    exact ⟨rfl, .inl (Watched.noticed_arm _)⟩
  | acceptFails _ hb hfd =>
    refine h.next hb fun _ c hc => ?_
    rw [hfd, h.conn.1] at hc
    cases hc
  | recvfrom _ hb _ hfd =>
    have hnext := h.next hb fun _ c hc => by
      rw [hfd, h.conn.2] at hc
      cases hc
    exact ⟨ho, hnext.watch⟩
  | recvfromFails _ hb _ hfd =>
    refine h.next hb fun _ c hc => ?_
    rw [hfd, h.conn.2] at hc
    cases hc
  | enter | send => exact ⟨ho, h.watch⟩
  | other _ hb _ _ hin =>
    refine h.next hb fun htrue => ?_
    rw [hin] at htrue
    cases htrue
  | recv _ hc =>
    refine h.change ho rfl (fun _ _ hmem => hmem) ?_
    rintro _ ⟨⟩
    exact (h.watch _ _ hc).imp_right (Or.imp_left fun hnoticed => hnoticed.take _)
  | recvEnd => exact h.close _
  | recvAgain hp hc hnil hopen =>
    obtain ⟨-, -, r, rest, hb, hfd⟩ := h.reads _ (congrArg LoopAt.sockfd? hp)
    refine h.next hb fun _ c hc' => ?_
    rw [hfd] at hc'
    cases hc.symm.trans hc'
    exact Watched.noticed_of_empty hnil hopen
  | recvFails hp => exact ⟨ho, (h.leave (congrArg LoopAt.sockfd? hp)).watch⟩
  | recvClosed hp => exact h.leave (congrArg LoopAt.sockfd? hp)

/-! ### The account of a client -/

/-- What a client has sent is what was read of it, and what was not read yet; a client has a connection as
long as it has not closed its end and no `recv` has failed. -/
structure Accounted (s : TcpudpReflect) : Prop where
  conn : ∀ {fd c}, s.conn fd = some c → c.client < s.clients ∧ s.ended c.client = c.stream.ended ∧
    s.lost c.client = none ∧ s.sent c.client = s.got c.client ++ c.stream.unread
  injective : ∀ {fd fd' c c'}, s.conn fd = some c → s.conn fd' = some c' → c.client = c'.client → fd = fd'
  gone : ∀ {p}, p < s.clients → (∀ fd c, s.conn fd = some c → c.client ≠ p) →
    s.sent p = s.got p ++ (s.lost p).getD [] ∧ (s.ended p = true ∨ s.lost p ≠ none)
  fresh : ∀ {p}, s.clients ≤ p → s.got p = [] ∧ s.lost p = none

lemma accounted_init (listenfd udpfd : ℕ) : (init listenfd udpfd).Accounted where
  conn h := by cases h
  injective h := by cases h
  gone h := absurd h (Nat.not_lt_zero _)
  fresh _ := ⟨rfl, rfl⟩

/-- The client of an open connection does something, or is read. -/
lemma Accounted.change (h : s.Accounted) (hc : s.conn fd = some c)
    (hconn : s'.conn = Function.update s.conn fd (some c')) (hclient : c'.client = c.client)
    (hclients : s'.clients = s.clients)
    (hlost : s'.lost = s.lost) (hended : ∀ p, p ≠ c.client → s'.ended p = s.ended p)
    (hsent : ∀ p, p ≠ c.client → s'.sent p = s.sent p) (hgot : ∀ p, p ≠ c.client → s'.got p = s.got p)
    (hself : s'.ended c.client = c'.stream.ended ∧
      s'.sent c.client = s'.got c.client ++ c'.stream.unread) : s'.Accounted := by
  obtain ⟨hlt, -, hnone, -⟩ := h.conn hc
  have hback : ∀ {fd' d}, s'.conn fd' = some d →
      fd' = fd ∧ d = c' ∨ fd' ≠ fd ∧ s.conn fd' = some d ∧ d.client ≠ c.client := by
    intro fd' d hd
    rw [hconn] at hd
    by_cases hfd : fd' = fd
    · subst hfd
      rw [Function.update_self, Option.some_inj] at hd
      exact .inl ⟨rfl, hd.symm⟩
    · rw [Function.update_of_ne hfd] at hd
      exact .inr ⟨hfd, hd, fun heq => hfd (h.injective hd hc heq)⟩
  constructor
  case conn =>
    intro fd' d hd
    rcases hback hd with ⟨-, rfl⟩ | ⟨-, hd', hne⟩
    · rw [hclient, hclients, hlost]
      exact ⟨hlt, hself.1, hnone, hself.2⟩
    · rw [hclients, hlost, hended _ hne, hsent _ hne, hgot _ hne]
      exact h.conn hd'
  case injective =>
    intro fd₁ fd₂ d₁ d₂ hd₁ hd₂ heq
    rcases hback hd₁ with ⟨hfd₁, rfl⟩ | ⟨-, hd₁', hne₁⟩
    · rcases hback hd₂ with ⟨hfd₂, -⟩ | ⟨-, -, hne₂⟩
      · exact hfd₁.trans hfd₂.symm
      · exact absurd (heq.symm.trans hclient) hne₂
    · rcases hback hd₂ with ⟨-, rfl⟩ | ⟨-, hd₂', -⟩
      · exact absurd (heq.trans hclient) hne₁
      · exact h.injective hd₁' hd₂' heq
  case gone =>
    intro p hp hgone
    have hpc : p ≠ c.client := by
      rintro rfl
      exact hgone fd c' (by rw [hconn, Function.update_self]) hclient
    rw [hclients] at hp
    rw [hlost, hended p hpc, hsent p hpc, hgot p hpc]
    refine h.gone hp fun fd' d hd => ?_
    by_cases hfd : fd' = fd
    · subst hfd
      cases hc.symm.trans hd
      exact hpc.symm
    · exact hgone fd' d (by rw [hconn, Function.update_of_ne hfd, hd])
  case fresh =>
    intro p hp
    rw [hclients] at hp
    rw [hgot p (hlt.trans_le hp).ne', hlost]
    exact h.fresh hp

/-- A report does not concern the clients. -/
lemma conn_wait {events : List Ready} (hc : (s.wait events).conn fd = some c) : ∃ c₀, s.conn fd = some c₀ ∧
    c.client = c₀.client ∧ c.stream.ended = c₀.stream.ended ∧ c.stream.unread = c₀.stream.unread := by
  change (if fd ∈ events.map (·.fd) then _ else _ : Option Conn) = some c at hc
  split at hc
  next =>
    obtain ⟨c₀, hc₀, rfl⟩ := Option.map_eq_some_iff.mp hc
    exact ⟨c₀, hc₀, rfl, rfl, rfl⟩
  next => exact ⟨c, hc, rfl, rfl, rfl⟩

lemma exists_conn_wait (events : List Ready) (hc : s.conn fd = some c) :
    ∃ c', (s.wait events).conn fd = some c' ∧ c'.client = c.client := by
  show ∃ c', (if fd ∈ events.map (·.fd) then _ else _ : Option Conn) = some c' ∧ _
  split
  next =>
    rw [hc]
    exact ⟨_, rfl, rfl⟩
  next => exact ⟨c, hc, rfl⟩

lemma Accounted.wait (h : s.Accounted) (events : List Ready) : (s.wait events).Accounted where
  conn hc := by
    obtain ⟨c₀, hc₀, hclient, hended, hunread⟩ := conn_wait hc
    rw [hclient, hended, hunread]
    exact h.conn hc₀
  injective hc hc' heq := by
    obtain ⟨c₀, hc₀, hclient, -⟩ := conn_wait hc
    obtain ⟨c₁, hc₁, hclient', -⟩ := conn_wait hc'
    exact h.injective hc₀ hc₁ (hclient.symm.trans (heq.trans hclient'))
  gone hp hgone := by
    refine h.gone hp fun fd c hc => ?_
    obtain ⟨c', hc', hclient⟩ := exists_conn_wait events hc
    rw [← hclient]
    exact hgone fd c' hc'
  fresh := h.fresh

/-- A new client. -/
lemma Accounted.accept {connfd : ℕ} {data : Bytes} {ended : Bool} (h : s.Accounted)
    (hnone : s.conn connfd = none) : (s.accept connfd data ended).Accounted := by
  have hback : ∀ {fd c}, (s.accept connfd data ended).conn fd = some c →
      fd = connfd ∧ c = ⟨s.clients, Watched.arm ⟨data, ended, false, false⟩⟩ ∨
        fd ≠ connfd ∧ s.conn fd = some c ∧ c.client < s.clients := by
    intro fd c hc
    change Function.update s.conn connfd _ fd = some c at hc
    by_cases hfd : fd = connfd
    · subst hfd
      rw [Function.update_self, Option.some_inj] at hc
      exact .inl ⟨rfl, hc.symm⟩
    · rw [Function.update_of_ne hfd] at hc
      exact .inr ⟨hfd, hc, (h.conn hc).1⟩
  have hnew : ∀ {p}, p ≠ s.clients → (s.accept connfd data ended).sent p = s.sent p ∧
      (s.accept connfd data ended).ended p = s.ended p :=
    fun hp => ⟨Function.update_of_ne hp _ _, Function.update_of_ne hp _ _⟩
  obtain ⟨hgot, hlost⟩ := h.fresh (le_refl s.clients)
  constructor
  case conn =>
    intro fd c hc
    rcases hback hc with ⟨-, rfl⟩ | ⟨-, hc', hlt⟩
    · refine ⟨Nat.lt_succ_self _, Function.update_self _ _ _, hlost, ?_⟩
      show Function.update s.sent s.clients data s.clients = s.got s.clients ++ data
      rw [Function.update_self, hgot, List.nil_append]
    · obtain ⟨-, hended, hnone', hsent⟩ := h.conn hc'
      rw [(hnew hlt.ne).1, (hnew hlt.ne).2]
      exact ⟨Nat.lt_succ_of_lt hlt, hended, hnone', hsent⟩
  case injective =>
    intro fd fd' c c' hc hc' heq
    rcases hback hc with ⟨hfd, rfl⟩ | ⟨-, hold, hlt⟩
    · rcases hback hc' with ⟨hfd', -⟩ | ⟨-, -, hlt'⟩
      · exact hfd.trans hfd'.symm
      · exact absurd heq.symm hlt'.ne
    · rcases hback hc' with ⟨-, rfl⟩ | ⟨-, hold', -⟩
      · exact absurd heq hlt.ne
      · exact h.injective hold hold' heq
  case gone =>
    intro p hp hgone
    have hne : p ≠ s.clients := by
      rintro rfl
      exact hgone connfd _ (Function.update_self _ _ _) rfl
    rw [(hnew hne).1, (hnew hne).2]
    refine h.gone (lt_of_le_of_ne (Nat.le_of_lt_succ hp) hne) fun fd c hc => ?_
    have hfd : fd ≠ connfd := by
      rintro rfl
      rw [hnone] at hc
      cases hc
    exact hgone fd c ((Function.update_of_ne hfd _ _).trans hc)
  case fresh => exact fun hp => h.fresh ((Nat.le_succ _).trans hp)

/-- The connection of a client is closed, with what was not read of it. -/
lemma Accounted.giveUp (h : s.Accounted) (hc : s.conn fd = some c) (hconn : s'.conn = Function.update s.conn fd none)
    (hclients : s'.clients = s.clients) (hsent : s'.sent = s.sent) (hended : s'.ended = s.ended)
    (hgot : s'.got = s.got) (hlost : ∀ p, p ≠ c.client → s'.lost p = s.lost p)
    (hself : (s'.lost c.client).getD [] = c.stream.unread ∧
      (c.stream.ended = true ∨ s'.lost c.client ≠ none)) : s'.Accounted := by
  obtain ⟨hlt, hend, -, hall⟩ := h.conn hc
  have hback : ∀ {fd' d}, s'.conn fd' = some d → fd' ≠ fd ∧ s.conn fd' = some d ∧ d.client ≠ c.client := by
    intro fd' d hd
    rw [hconn] at hd
    have hfd : fd' ≠ fd := by
      rintro rfl
      rw [Function.update_self] at hd
      cases hd
    rw [Function.update_of_ne hfd] at hd
    exact ⟨hfd, hd, fun heq => hfd (h.injective hd hc heq)⟩
  constructor
  case conn =>
    intro fd' d hd
    obtain ⟨-, hd', hne⟩ := hback hd
    rw [hclients, hended, hsent, hgot, hlost _ hne]
    exact h.conn hd'
  case injective => exact fun hd hd' heq => h.injective (hback hd).2.1 (hback hd').2.1 heq
  case gone =>
    intro p hp hgone
    rw [hsent, hgot, hended]
    rw [hclients] at hp
    by_cases hpc : p = c.client
    · subst hpc
      rw [hself.1, hend]
      exact ⟨hall, hself.2⟩
    · rw [hlost p hpc]
      refine h.gone hp fun fd' d hd => ?_
      by_cases hfd : fd' = fd
      · subst hfd
        cases hc.symm.trans hd
        exact Ne.symm hpc
      · exact hgone fd' d (by rw [hconn, Function.update_of_ne hfd, hd])
  case fresh =>
    intro p hp
    rw [hclients] at hp
    rw [hgot, hlost p (hlt.trans_le hp).ne']
    exact h.fresh hp

/-- There is nothing to close. -/
lemma close_eq (hc : s.conn fd = none) : s.close fd = s := by
  have hconn : Function.update s.conn fd none = s.conn := by
    rw [← hc, Function.update_eq_self]
  rw [TcpudpReflect.close, hconn]

lemma Step.accounted (hs : Step s e s') (h : s.Accounted) : s'.Accounted := by
  cases hs with
  | arrive hc hopen =>
    refine h.change hc rfl rfl rfl rfl (fun _ _ => rfl) (fun p hp => Function.update_of_ne hp _ _)
      (fun _ _ => rfl) ⟨(h.conn hc).2.1, ?_⟩
    refine (Function.update_self _ _ _).trans ?_
    rw [(h.conn hc).2.2.2, List.append_assoc]
    rfl
  | finish hc =>
    exact h.change hc rfl rfl rfl rfl (fun p hp => Function.update_of_ne hp _ _) (fun _ _ => rfl)
      (fun _ _ => rfl) ⟨Function.update_self _ _ _, (h.conn hc).2.2.2⟩
  | wait => exact h.wait _
  | accept _ _ _ _ hc => exact h.accept hc
  | @recv sockfd ret c hp hc _ _ hret =>
    refine h.change hc rfl rfl rfl rfl (fun _ _ => rfl) (fun _ _ => rfl)
      (fun p hp => Function.update_of_ne hp _ _) ⟨(h.conn hc).2.1, ?_⟩
    show s.sent c.client = Function.update s.got c.client _ c.client ++ c.stream.unread.drop ret
    rw [Function.update_self, List.append_assoc, List.take_append_drop]
    exact (h.conn hc).2.2.2
  | recvEnd _ hc hnil hended =>
    refine h.giveUp hc rfl rfl rfl rfl rfl (fun _ _ => rfl) ⟨?_, .inl hended⟩
    show (s.lost _).getD [] = _
    rw [(h.conn hc).2.2.1, hnil]
    rfl
  | @recvFails sockfd c _ hc =>
    refine h.giveUp hc rfl rfl rfl rfl rfl (fun p hp => Function.update_of_ne hp _ _) ?_
    have hlost : (s.lose sockfd c).lost c.client = some c.stream.unread := Function.update_self _ _ _
    rw [hlost]
    exact ⟨rfl, .inr (by simp)⟩
  | recvClosed _ hc =>
    rw [close_eq hc]
    exact ⟨h.conn, h.injective, h.gone, h.fresh⟩
  | _ => exact ⟨h.conn, h.injective, h.gone, h.fresh⟩

/-! ### What goes back -/

/-- What was read of a client, and was not given to `send` yet, behind what was sent back. -/
structure Reflecting (s : TcpudpReflect) : Prop where
  sub : ∀ p, (s.reflected p).Sublist (s.got p)
  send : ∀ fd data p, s.place = .send fd data p → (s.reflected p ++ data).Sublist (s.got p)

lemma Step.reflecting (hs : Step s e s') (h : s.Reflecting) : s'.Reflecting := by
  cases hs with
  | connect | datagram | arrive | finish | wait | recvEnd => exact ⟨h.sub, h.send⟩
  | accept | acceptFails | recvfrom | recvfromFails | other | recvAgain | recvFails | recvClosed =>
    exact ⟨h.sub, fun _ _ _ hplace => by cases hplace⟩
  | enter => exact ⟨h.sub, fun _ _ _ hplace => by cases hplace⟩
  | @recv sockfd ret c =>
    have hsub : ∀ p, (s.got p).Sublist
        (Function.update s.got c.client (s.got c.client ++ c.stream.unread.take ret) p) := by
      intro p
      by_cases hp : p = c.client
      · subst hp
        rw [Function.update_self]
        exact List.sublist_append_left _ _
      · rw [Function.update_of_ne hp]
    refine ⟨fun p => (h.sub p).trans (hsub p), ?_⟩
    rintro _ _ _ ⟨⟩
    show (s.reflected c.client ++ _).Sublist (Function.update s.got c.client _ c.client)
    rw [Function.update_self]
    exact (h.sub _).append (List.Sublist.refl _)
  | @send sockfd client n data hp =>
    refine ⟨fun p => ?_, fun _ _ _ hplace => by cases hplace⟩
    by_cases hpc : p = client
    · subst hpc
      show (Function.update s.reflected p _ p).Sublist _
      rw [Function.update_self]
      exact ((List.Sublist.refl _).append (List.take_sublist n data)).trans (h.send _ _ _ hp)
    · show (Function.update s.reflected client _ p).Sublist _
      rw [Function.update_of_ne hpc]
      exact h.sub p

/-- In every run, what is sent back to a client is in the order of what was read of it, and that is the
front of what it has sent. When every event is handled and no connection is ready, all that a client has
sent was read, unless a `recv` has failed; and exactly the clients that have closed their end or of
which a `recv` has failed have no connection any more. -/
theorem run_reads {listenfd udpfd : ℕ} (hne : listenfd ≠ udpfd) (hrun : Trace Step (init listenfd udpfd) es s) :
    (∀ p < s.clients, (s.reflected p).Sublist (s.got p) ∧ s.got p <+: s.sent p) ∧
      (s.batch = [] → (∀ fd c, s.conn fd = some c → c.stream.ready = false) → ∀ p < s.clients,
        s.sent p = s.got p ++ (s.lost p).getD [] ∧
          ((∀ fd c, s.conn fd = some c → c.client ≠ p) ↔ s.ended p = true ∨ s.lost p ≠ none)) := by
  obtain ⟨hwatch, hacc, hrefl⟩ : s.Watching ∧ s.Accounted ∧ s.Reflecting := by
    refine hrun.invariant (I := fun s => s.Watching ∧ s.Accounted ∧ s.Reflecting) ?_
      ⟨⟨ordered_init hne, fun _ _ hc => by cases hc⟩, accounted_init listenfd udpfd,
        ⟨fun _ => List.Sublist.refl _, fun _ _ _ hplace => by cases hplace⟩⟩
    rintro s e s' ⟨hwatch, hacc, hrefl⟩ hs
    exact ⟨hs.watching hwatch, hs.accounted hacc, hs.reflecting hrefl⟩
  have hopen : ∀ p, (∀ fd c, s.conn fd = some c → c.client ≠ p) ∨ ∃ fd c, s.conn fd = some c ∧ c.client = p := by
    intro p
    by_cases hp : ∃ fd c, s.conn fd = some c ∧ c.client = p
    · exact .inr hp
    · exact .inl fun fd c hc hcp => hp ⟨fd, c, hc, hcp⟩
  constructor
  · refine fun p hp => ⟨hrefl.sub p, ?_⟩
    rcases hopen p with hgone | ⟨fd, c, hc, rfl⟩
    · rw [(hacc.gone hp hgone).1]
      exact List.prefix_append _ _
    · rw [(hacc.conn hc).2.2.2]
      exact List.prefix_append _ _
  · intro hbatch hready p hp
    rcases hopen p with hgone | ⟨fd, c, hc, rfl⟩
    · obtain ⟨hsent, hwhy⟩ := hacc.gone hp hgone
      exact ⟨hsent, iff_of_true hgone hwhy⟩
    -- no entry is left, so nothing is overlooked on the connection
    · obtain ⟨-, hended, hlost, hsent⟩ := hacc.conn hc
      obtain ⟨harmed, hor⟩ := hwatch.watch fd c hc
      rw [hbatch] at hor
      have hnoticed := hor.resolve_right List.not_mem_nil
      obtain ⟨hnil, hopen⟩ := hnoticed.eq_of_not_ready harmed (hready fd c hc)
      refine ⟨by rw [hsent, hnil, hlost]; rfl, iff_of_false (fun hgone => hgone fd c hc rfl) ?_⟩
      rw [hended, hopen, hlost]
      simp

/-- A client sends two bytes and closes its end: both are read, and the connection is closed. -/
theorem run_reads_two : ∃ (es : List Event) (s : TcpudpReflect), Trace Step (init 3 4) es s ∧ s.clients = 1 ∧
    s.reflected 0 = [104] ∧ s.got 0 = [104, 105] ∧ s.sent 0 = s.got 0 ++ (s.lost 0).getD [] := by
  have hlisten : ∀ r ∈ [(⟨3, true⟩ : Ready)], (init 3 4).connect.Reportable r := by
    intro r hr
    rw [List.mem_singleton.mp hr]
    exact .inl ⟨rfl, rfl⟩
  have hready : ∀ r ∈ [(⟨5, true⟩ : Ready)],
      (((init 3 4).connect.wait [⟨3, true⟩]).accept 5 [104, 105] true).Reportable r := by
    intro r hr
    rw [List.mem_singleton.mp hr]
    exact .inr (.inr ⟨_, rfl, rfl, fun _ => rfl⟩)
  have hrun : Trace Step (init 3 4)
      [.connect, .wait [⟨3, true⟩], .accept 5 [104, 105] true, .wait [⟨5, true⟩], .enter, .recv 2, .send 1,
        .recvEnd, .recvClosed] _ :=
    .cons .connect (.cons (.wait rfl rfl (by simp) (by decide) (by decide) hlisten)
      (.cons (.accept rfl rfl rfl (List.cons_ne_nil _ _) rfl (by decide) (by decide))
      (.cons (.wait rfl rfl (by simp) (by decide) (by decide) hready)
      (.cons (.enter rfl rfl (by decide) (by decide) rfl)
      (.cons (.recv rfl rfl (by decide) (by decide) (by decide))
      (.cons (.send rfl (by decide))
      (.cons (.recvEnd rfl rfl rfl rfl) (.cons (.recvClosed rfl rfl) (.nil _)))))))))
  refine ⟨_, _, hrun, rfl, rfl, rfl, ((run_reads (by decide) hrun).2 rfl (fun fd c hc => ?_) 0 Nat.one_pos).1⟩
  by_cases hfd : fd = 5
  · subst hfd
    cases hc
  · simp [TcpudpReflect.close, TcpudpReflect.next, TcpudpReflect.send, TcpudpReflect.recv, goto,
      TcpudpReflect.wait, TcpudpReflect.accept, init, connect, hfd] at hc

/-! ### When all of it goes back -/

/-- Between two calls of `send`, all that was read was sent back. -/
def Reflects (s : TcpudpReflect) : Prop :=
  (∀ fd data p, s.place ≠ .send fd data p) → ∀ p, s.reflected p = s.got p

/-- `send` takes all that it is given. -/
def Whole (s : TcpudpReflect) : Event → Prop
  | .send n => ∀ fd data p, s.place = .send fd data p → n = data.length
  | _ => True

/-- All was sent back but for what `send` is about to be given. -/
structure Full (s : TcpudpReflect) : Prop where
  idle : (∀ fd data p, s.place ≠ .send fd data p) → ∀ p, s.reflected p = s.got p
  send : ∀ fd data p, s.place = .send fd data p →
    s.got p = s.reflected p ++ data ∧ ∀ q, q ≠ p → s.reflected q = s.got q

lemma Step.full (hs : Step s e s') (h : s.Full) (hwhole : s.Whole e) : s'.Full := by
  cases hs with
  | connect | datagram | arrive | finish | wait | recvEnd => exact ⟨h.idle, h.send⟩
  | accept hp | acceptFails hp | recvfrom hp | recvfromFails hp | other hp | enter hp =>
    exact ⟨fun _ => h.idle (by simp [hp]), fun _ _ _ hplace => by cases hplace⟩
  | recvAgain hp | recvFails hp | recvClosed hp =>
    exact ⟨fun _ => h.idle (by simp [hp]), fun _ _ _ hplace => by cases hplace⟩
  | @recv sockfd ret c hp =>
    have hidle := h.idle (by simp [hp])
    refine ⟨fun hnot => absurd rfl (hnot _ _ _), ?_⟩
    rintro _ _ _ ⟨⟩
    show Function.update s.got c.client _ c.client = s.reflected c.client ++ _ ∧ _
    rw [Function.update_self, hidle]
    exact ⟨rfl, fun q hq => (hidle q).trans (Function.update_of_ne hq _ _).symm⟩
  | @send sockfd client n data hp =>
    obtain ⟨hgot, hrest⟩ := h.send _ _ _ hp
    refine ⟨fun _ p => ?_, fun _ _ _ hplace => by cases hplace⟩
    show Function.update s.reflected client _ p = s.got p
    by_cases hpc : p = client
    · subst hpc
      rw [Function.update_self, hwhole _ _ _ hp, List.take_length, hgot]
    · rw [Function.update_of_ne hpc, hrest p hpc]

/-- Between any two calls of `send`, every client was sent back all that was read of it, if and only if no
`send` took less than it was given. -/
theorem run_reflects_iff {listenfd udpfd : ℕ} :
    Trace (fun s e s' => Step s e s' ∧ s'.Reflects) (init listenfd udpfd) es s ↔
      Trace (fun s e s' => Step s e s' ∧ s.Whole e) (init listenfd udpfd) es s := by
  have hinit : (init listenfd udpfd).Full := ⟨fun _ _ => rfl, fun _ _ _ hplace => by cases hplace⟩
  refine Trace.guard_iff (I := Full) ?_ hinit
  intro s e s' h hs
  refine ⟨⟨fun hreflects => ?_, fun hwhole => (hs.full h hwhole).idle⟩, hs.full h⟩
  cases hs with
  | @send sockfd client n data hp hle =>
    intro fd data' p hp'
    cases hp.symm.trans hp'
    have hback := hreflects (fun _ _ _ hplace => by cases hplace) client
    change Function.update s.reflected client _ client = s.got client at hback
    rw [Function.update_self, (h.send _ _ _ hp).1, List.append_cancel_left_eq] at hback
    have hlen := congrArg List.length hback
    rwa [List.length_take_of_le hle] at hlen
  | _ => trivial

end LinuxServer.TcpudpReflect
