import LinuxServer.CloseInactivateConn.Basic

/-!
# Runs of the server that closes inactive connections

Every open connection has a timer in the list, and every timer there has an open connection:
`Corresponds`. Whatever closes a connection takes its timer out of the list, and the pointer that is
left in `users` is not read before an `accept` of the same descriptor overwrites it.
-/

namespace LinuxServer.CloseInactivateConn

open Core Core.Dll SortTimerLst

variable {c : Fixed} {s s' : Server} {h : History Callback} {ts : List ℕ} {last : ℕ → Option ℤ}
  {fd connfd p : ℕ} {cur e : ℤ} {es : List Event}

namespace Server

/-- The timer `p` of the connection `fd`, which was last active at `e`. -/
structure TimerOf (s : Server) (h : History Callback) (fd p : ℕ) (e : ℤ) : Prop where
  user : s.users fd = ⟨fd, some p⟩
  deadline : h.queue.Until p (e + 3 * timeslot)
  carries : s.timerLst.Carries p .cbFunc fd

/-- The open connections and the timers of the list correspond to each other. -/
structure Corresponds (c : Fixed) (s : Server) (h : History Callback) (ts : List ℕ)
    (last : ℕ → Option ℤ) : Prop where
  refines : s.timerLst.Refines h ts
  fixed : c.all ⊆ s.fds
  client : ∀ fd, s.Client c fd → fd < fdLimit ∧ ∃ p e, s.TimerOf h fd p e ∧ last fd = some e ∧ e ≤ s.now
  timer : ∀ p, h.queue.Waits p → ∃ fd, s.Client c fd ∧ (s.users fd).timer = some p

lemma corresponds_init (users : ℕ → ClientData) (now : ℤ) :
    (init c users now).Corresponds c .init [] fun _ => none where
  refines := Refines.init
  fixed := Finset.Subset.refl _
  client fd hfd := absurd hfd.1 hfd.2
  timer p hp := by
    obtain ⟨k, hk⟩ := hp
    cases hk

/-- Different connections have different timers. -/
lemma TimerOf.ne {fd' p' : ℕ} {e' : ℤ} (h₁ : s.TimerOf h fd p e) (h₂ : s.TimerOf h fd' p' e')
    (hne : fd ≠ fd') : p ≠ p' := by
  rintro rfl
  exact hne (h₁.carries.unique h₂.carries).2

/-! ### A new connection -/

lemma accept_spec (hs : s.Corresponds c h ts last) (hlt : connfd < fdLimit) (hfree : connfd ∉ s.fds)
    (hle : s.now ≤ cur) : ∃ s' h' ts', s.accept connfd cur = some s' ∧
      s'.Corresponds c h' ts' (Function.update last connfd (some cur)) ∧ s'.batch = s.batch ∧
      ∀ fd, s.Client c fd → s'.Client c fd := by
  obtain ⟨l', ts', hl', r', hcarries, hkeep⟩ :=
    hs.refines.add (cur + 3 * timeslot) Callback.cbFunc connfd
  have hnot : connfd ∉ c.all := fun hmem => hfree (hs.fixed hmem)
  have hclient : ∀ fd, fd ∈ insert connfd s.fds ∧ fd ∉ c.all ↔ fd = connfd ∨ s.Client c fd := by
    intro fd
    rw [Finset.mem_insert, Client]
    constructor
    · rintro ⟨rfl | hfd, hall⟩
      · exact .inl rfl
      · exact .inr ⟨hfd, hall⟩
    · rintro (rfl | ⟨hfd, hall⟩)
      · exact ⟨.inl rfl, hnot⟩
      · exact ⟨.inr hfd, hall⟩
  refine ⟨{ s with
      users := Function.update s.users connfd ⟨connfd, some s.timerLst.store.fresh⟩
      timerLst := l'
      fds := insert connfd s.fds
      now := cur }, _, ts', ?_, ⟨r', hs.fixed.trans (Finset.subset_insert _ _), ?_, ?_⟩,
    rfl, fun fd hfd => (hclient fd).mpr (.inr hfd)⟩
  · rw [newTimer] at hl'
    simp only [accept, setUser, if_pos hlt, Option.bind_eq_bind, Option.bind_some, newTimer, hl',
      Function.update_idem, Function.update_self]
  · intro fd hfd
    rcases (hclient fd).mp hfd with rfl | hfd
    · exact ⟨hlt, _, cur, ⟨Function.update_self .., DeadlineQueue.put_self, hcarries⟩,
        Function.update_self .., le_rfl⟩
    · have hne : fd ≠ connfd := fun heq => hfree (heq ▸ hfd.1)
      obtain ⟨hlt', p, e, ht, hlast, he⟩ := hs.client fd hfd
      have hp : p ≠ s.timerLst.store.fresh :=
        (hs.refines.lt_fresh_of_waits ht.deadline.waits).ne
      refine ⟨hlt', p, e, ⟨?_, (DeadlineQueue.put_until_of_ne hp).mpr ht.deadline,
        hkeep _ _ _ ht.carries⟩, ?_, he.trans hle⟩
      · exact (Function.update_of_ne hne ..).trans ht.user
      · rwa [Function.update_of_ne hne]
  · intro p hp
    rcases DeadlineQueue.waits_put.mp hp with rfl | hp
    · exact ⟨connfd, (hclient connfd).mpr (.inl rfl), by simp⟩
    · obtain ⟨fd, hfd, htimer⟩ := hs.timer p hp
      have hne : fd ≠ connfd := fun heq => hfree (heq ▸ hfd.1)
      refine ⟨fd, (hclient fd).mpr (.inr hfd), ?_⟩
      exact (congrArg ClientData.timer (Function.update_of_ne hne ..)).trans htimer

/-! ### The end of a connection -/

lemma cbFunc_spec (hs : s.Corresponds c h ts last) (hfd : s.Client c fd) :
    s.cbFunc fd = some { s with fds := s.fds.erase fd } := by
  obtain ⟨hlt, p, e, ht, -⟩ := hs.client fd hfd
  simp only [cbFunc, user, if_pos hlt, Option.bind_eq_bind, Option.bind_some, ht.user, if_pos hfd.1]

lemma client_erase {fd' : ℕ} :
    fd' ∈ s.fds.erase fd ∧ fd' ∉ c.all ↔ fd' ≠ fd ∧ s.Client c fd' := by
  rw [Finset.mem_erase, and_assoc, Client]

lemma closeConn_spec (hs : s.Corresponds c h ts last) (hfd : s.Client c fd)
    (ht : s.TimerOf h fd p e) : ∃ s' h' ts', s.closeConn fd (some p) = some s' ∧
      s'.Corresponds c h' ts' last ∧ s'.batch = s.batch ∧
      ∀ fd', fd' ≠ fd → s.Client c fd' → s'.Client c fd' := by
  obtain ⟨l', ts', hl', r', hkeep⟩ := hs.refines.del ht.deadline.waits
  refine ⟨{ s with fds := s.fds.erase fd, timerLst := l' }, _, ts', ?_, ⟨r', ?_, ?_, ?_⟩, rfl,
    fun fd' hne hfd' => client_erase.mpr ⟨hne, hfd'⟩⟩
  · simp only [closeConn, cbFunc_spec hs hfd, Option.bind_eq_bind, Option.bind_some, reduceCtorEq,
      if_false, hl']
  · exact Finset.subset_erase.mpr ⟨hs.fixed, hfd.2⟩
  · intro fd' hfd'
    obtain ⟨hne, hfd'⟩ := client_erase.mp hfd'
    obtain ⟨hlt, p', e', ht', hlast, he⟩ := hs.client fd' hfd'
    have hp : p' ≠ p := ht'.ne ht hne
    exact ⟨hlt, p', e', ⟨ht'.user, DeadlineQueue.until_remove.mpr ⟨by simpa using hp, ht'.deadline⟩,
      hkeep _ _ _ hp ht'.carries⟩, hlast, he⟩
  · intro p' hp'
    obtain ⟨hp, hp'⟩ := DeadlineQueue.waits_remove.mp hp'
    obtain ⟨fd', hfd', htimer⟩ := hs.timer p' hp'
    refine ⟨fd', client_erase.mpr ⟨?_, hfd'⟩, htimer⟩
    rintro rfl
    rw [ht.user] at htimer
    cases htimer
    simp at hp

/-! ### A read from a client -/

/-- What a read makes of the time at which the connections were last active. -/
def readAt (last : ℕ → Option ℤ) (fd : ℕ) : Received → ℕ → Option ℤ
  | .data cur => Function.update last fd (some cur)
  | _ => last

lemma read_data_spec (hs : s.Corresponds c h ts last) (hfd : s.Client c fd) (hle : s.now ≤ cur) :
    ∃ s' h' ts', s.read fd (.data cur) = some s' ∧
      s'.Corresponds c h' ts' (Function.update last fd (some cur)) ∧ s'.batch = s.batch ∧
      ∀ fd', s.Client c fd' → s'.Client c fd' := by
  obtain ⟨hlt, p, e, ht, hlast, he⟩ := hs.client fd hfd
  have hmono : e + 3 * timeslot ≤ cur + 3 * timeslot := by omega
  obtain ⟨l₁, l', ts', h₁, hl', r', hkeep⟩ := hs.refines.adjust ht.deadline hmono
  refine ⟨{ s with timerLst := l', now := cur }, _, ts', ?_, ⟨r', hs.fixed, ?_, ?_⟩, rfl,
    fun _ => id⟩
  · simp only [read, user, if_pos hlt, Option.bind_eq_bind, Option.bind_some, ht.user, reduceCtorEq,
      if_false, h₁, hl']
  · intro fd' hfd'
    by_cases hne : fd' = fd
    · subst hne
      exact ⟨hlt, p, cur, ⟨ht.user, DeadlineQueue.put_self, hkeep _ _ _ ht.carries⟩,
        Function.update_self .., le_rfl⟩
    · obtain ⟨hlt', p', e', ht', hlast', he'⟩ := hs.client fd' hfd'
      exact ⟨hlt', p', e', ⟨ht'.user, (DeadlineQueue.put_until_of_ne (ht'.ne ht hne)).mpr ht'.deadline,
        hkeep _ _ _ ht'.carries⟩, by rwa [Function.update_of_ne hne], he'.trans hle⟩
  · intro p' hp'
    rcases DeadlineQueue.waits_put.mp hp' with rfl | hp'
    · exact ⟨fd, hfd, congrArg ClientData.timer ht.user⟩
    · exact hs.timer p' hp'

lemma read_spec {r : Received} (hs : s.Corresponds c h ts last) (hfd : s.Client c fd)
    (hr : r.NotBefore s.now) : ∃ s' h' ts', s.read fd r = some s' ∧
      s'.Corresponds c h' ts' (readAt last fd r) ∧ s'.batch = s.batch ∧
      ∀ fd', fd' ≠ fd → s.Client c fd' → s'.Client c fd' := by
  obtain ⟨hlt, p, e, ht, hlast, he⟩ := hs.client fd hfd
  have hclose : ∀ r, r = .eof ∨ r = .error → s.read fd r = s.closeConn fd (some p) := by
    rintro r (rfl | rfl) <;>
      simp only [read, user, if_pos hlt, Option.bind_eq_bind, Option.bind_some, ht.user]
  cases r with
  | data cur =>
    obtain ⟨s', h', ts', hs', hcorr, hbatch, hclient⟩ := read_data_spec hs hfd hr
    exact ⟨s', h', ts', hs', hcorr, hbatch, fun fd' _ => hclient fd'⟩
  | eof =>
    rw [hclose _ (.inl rfl)]
    exact closeConn_spec hs hfd ht
  | eagain =>
    refine ⟨s, h, ts, ?_, hs, rfl, fun _ _ => id⟩
    simp only [read, user, if_pos hlt, Option.bind_eq_bind, Option.bind_some]
  | error =>
    rw [hclose _ (.inr rfl)]
    exact closeConn_spec hs hfd ht

/-! ### A sweep -/

lemma callbacks_spec : ∀ (ds : List ℕ) (s : Server), ds.Nodup →
    (∀ d ∈ ds, d < fdLimit ∧ (s.users d).sockfd = d ∧ d ∈ s.fds) →
    s.callbacks (ds.map .cbFunc) = some { s with fds := s.fds \ ds.toFinset }
  | [], s, _, _ => by simp [callbacks]
  | d :: ds, s, hnd, hds => by
    rw [List.nodup_cons] at hnd
    rw [List.forall_mem_cons] at hds
    obtain ⟨⟨hlt, hsock, hopen⟩, hds⟩ := hds
    have hrest := callbacks_spec ds { s with fds := s.fds.erase d } hnd.2 fun d' hd' =>
      ⟨(hds d' hd').1, (hds d' hd').2.1, Finset.mem_erase.mpr
        ⟨fun heq => hnd.1 (heq ▸ hd'), (hds d' hd').2.2⟩⟩
    simp only [List.map_cons, callbacks, cbFunc, user, if_pos hlt, Option.bind_eq_bind,
      Option.bind_some, hsock, if_pos hopen, hrest]
    congr 2
    ext x
    simp only [Finset.mem_sdiff, Finset.mem_erase, List.mem_toFinset, List.mem_cons]
    tauto

/-- A connection was silent for three time slots. -/
def Silent (last : ℕ → Option ℤ) (cur : ℤ) (fd : ℕ) : Prop :=
  ∃ e, last fd = some e ∧ e + 3 * timeslot ≤ cur

/-- The timers that are due are those of the silent connections. -/
lemma TimerOf.due_iff (ht : s.TimerOf h fd p e) (hlast : last fd = some e) :
    h.queue.Due cur p ↔ Silent last cur fd := by
  constructor
  · rintro ⟨e', he', hle⟩
    obtain rfl := ht.deadline.unique he'
    exact ⟨e, hlast, hle⟩
  · rintro ⟨e', he', hle⟩
    obtain rfl : e = e' := Option.some.inj (hlast.symm.trans he')
    exact ⟨_, ht.deadline, hle⟩

/-- A waiting timer is that of a connection, with all that is known of it. -/
lemma Corresponds.timerOf (hs : s.Corresponds c h ts last) (hp : h.queue.Waits p) :
    ∃ fd e, s.Client c fd ∧ fd < fdLimit ∧ s.TimerOf h fd p e ∧ last fd = some e := by
  obtain ⟨fd, hfd, htimer⟩ := hs.timer p hp
  obtain ⟨hlt, p', e, ht, hlast, -⟩ := hs.client fd hfd
  rw [ht.user] at htimer
  cases htimer
  exact ⟨fd, e, hfd, hlt, ht, hlast⟩

section Sweep

variable {l' : SortTimerLst ℕ Callback} {calls : List (ℕ × Callback)} {r₁ r₂ : List ℕ}

lemma userData_of_call {call : ℕ × Callback} (htick : s.timerLst.Ticked l' cur calls r₁ r₂)
    (hc : call ∈ calls) (ht : s.TimerOf h fd call.1 e) : call.2.userData = fd := by
  obtain ⟨t, hdata, hact⟩ := htick.calls call hc
  obtain ⟨t', hdata', hcb, hud⟩ := ht.carries
  cases hdata.symm.trans hdata'
  rw [hact, hcb, hud]
  rfl

/-- Each call of a sweep is for the connection of its timer. -/
lemma Corresponds.call (hs : s.Corresponds c h ts last) (htick : s.timerLst.Ticked l' cur calls r₁ r₂)
    (hdue : ∀ p ∈ r₁, h.queue.Due cur p) : ∀ call ∈ calls, ∃ e, s.Client c call.2.userData ∧
      call.2.userData < fdLimit ∧ s.TimerOf h call.2.userData call.1 e ∧
      last call.2.userData = some e ∧ h.queue.Due cur call.1 := by
  intro call hc
  have hdue' := hdue call.1 (htick.timers ▸ List.mem_map_of_mem hc)
  obtain ⟨fd, e, hfd, hlt, ht, hlast⟩ := hs.timerOf hdue'.waits
  obtain rfl := userData_of_call htick hc ht
  exact ⟨e, hfd, hlt, ht, hlast, hdue'⟩

/-- The calls are for the connections that are silent. -/
lemma Corresponds.mem_userData (hs : s.Corresponds c h (r₁ ++ r₂) last)
    (htick : s.timerLst.Ticked l' cur calls r₁ r₂) (hdue : ∀ p ∈ r₁, h.queue.Due cur p)
    (hlater : ∀ p ∈ r₂, ¬ h.queue.Due cur p) (fd : ℕ) :
    fd ∈ calls.map (fun call => call.2.userData) ↔ s.Client c fd ∧ Silent last cur fd := by
  rw [List.mem_map]
  constructor
  · rintro ⟨call, hc, rfl⟩
    obtain ⟨e, hfd, -, ht, hlast, hdue'⟩ := hs.call htick hdue call hc
    exact ⟨hfd, (ht.due_iff hlast).mp hdue'⟩
  · rintro ⟨hfd, hsilent⟩
    obtain ⟨-, p, e, ht, hlast, -⟩ := hs.client fd hfd
    have hdue' := (ht.due_iff hlast).mpr hsilent
    have hp : p ∈ calls.map Prod.fst := by
      rw [htick.timers]
      rcases List.mem_append.mp ((hs.refines.lists.mem p).mpr hdue'.waits) with hp | hp
      · exact hp
      · exact absurd hdue' (hlater p hp)
    obtain ⟨call, hc, rfl⟩ := List.mem_map.mp hp
    exact ⟨call, hc, userData_of_call htick hc ht⟩

/-- No connection is called for twice. -/
lemma Corresponds.nodup_userData (hs : s.Corresponds c h (r₁ ++ r₂) last)
    (htick : s.timerLst.Ticked l' cur calls r₁ r₂) (hdue : ∀ p ∈ r₁, h.queue.Due cur p) :
    (calls.map fun call => call.2.userData).Nodup := by
  have hnd : (calls.map Prod.fst).Nodup := by
    rw [htick.timers]
    exact (List.nodup_append.mp hs.refines.lists.nodup).1
  have htimer : ∀ call ∈ calls, (s.users call.2.userData).timer = some call.1 := by
    intro call hc
    obtain ⟨e, -, -, ht, -⟩ := hs.call htick hdue call hc
    rw [ht.user]
  have hmap : (calls.map fun call => call.2.userData).map (fun fd => (s.users fd).timer) =
      (calls.map Prod.fst).map some := by
    rw [List.map_map, List.map_map]
    exact List.map_congr_left htimer
  exact List.Nodup.of_map _ (hmap ▸ hnd.map (Option.some_injective ℕ))

/-- A sweep closes the connections that are silent, and no others. -/
lemma timeHandler_spec (hs : s.Corresponds c h ts last) (hle : s.now ≤ cur) :
    ∃ s' h' ts', s.timeHandler cur = some s' ∧ s'.Corresponds c h' ts' last ∧ s'.batch = s.batch ∧
      ∀ fd, s'.Client c fd ↔ s.Client c fd ∧ ¬ Silent last cur fd := by
  obtain ⟨l', calls, r₁, r₂, hl', rfl, htick, hdue, hlater, r'⟩ := hs.refines.tick cur
  have hcall := hs.call htick hdue
  have hmem := hs.mem_userData htick hdue hlater
  have hnd := hs.nodup_userData htick hdue
  have hclose := callbacks_spec _ { s with timerLst := l', now := cur } hnd fun d hd => by
    obtain ⟨call, hc, rfl⟩ := List.mem_map.mp hd
    obtain ⟨e, hfd, hlt, ht, -⟩ := hcall call hc
    exact ⟨hlt, congrArg ClientData.sockfd ht.user, hfd.1⟩
  have hsnd : (calls.map fun call => call.2.userData).map Callback.cbFunc = calls.map Prod.snd := by
    rw [List.map_map]
    exact List.map_congr_left fun call _ => call.2.cbFunc_userData
  rw [hsnd] at hclose
  have hclient : ∀ fd, fd ∈ s.fds \ (calls.map fun call => call.2.userData).toFinset ∧ fd ∉ c.all ↔
      s.Client c fd ∧ ¬ Silent last cur fd := by
    intro fd
    rw [Finset.mem_sdiff, List.mem_toFinset, hmem, Client]
    tauto
  refine ⟨{ s with
      timerLst := l'
      fds := s.fds \ (calls.map fun call => call.2.userData).toFinset
      now := cur }, _, r₂, ?_, ⟨r', ?_, ?_, ?_⟩, rfl, hclient⟩
  · simp only [timeHandler, hl', Option.bind_eq_bind, Option.bind_some, hclose]
  · refine Finset.subset_sdiff.mpr ⟨hs.fixed, Finset.disjoint_left.mpr ?_⟩
    intro fd hall hmem'
    exact ((hmem fd).mp (List.mem_toFinset.mp hmem')).1.2 hall
  · intro fd hfd
    obtain ⟨hfd, hnot⟩ := (hclient fd).mp hfd
    obtain ⟨hlt, p, e, ht, hlast, he⟩ := hs.client fd hfd
    have hp : p ∉ calls.map Prod.fst := by
      intro hp
      obtain ⟨call, hc, rfl⟩ := List.mem_map.mp hp
      obtain rfl := userData_of_call htick hc ht
      exact hnot ((hmem _).mp (List.mem_map_of_mem hc)).2
    refine ⟨hlt, p, e, ⟨ht.user, DeadlineQueue.until_remove.mpr ⟨hp, ht.deadline⟩, ?_⟩, hlast,
      he.trans hle⟩
    rw [htick.timers] at hp
    exact ht.carries.of_data (by rw [htick.removed.data, if_neg hp])
  · intro p hp
    obtain ⟨hp, hw⟩ := DeadlineQueue.waits_remove.mp hp
    obtain ⟨fd, e, hfd, -, ht, hlast⟩ := hs.timerOf hw
    refine ⟨fd, (hclient fd).mpr ⟨hfd, fun hsilent => hp ?_⟩, congrArg ClientData.timer ht.user⟩
    obtain ⟨call, hc, rfl⟩ := List.mem_map.mp ((hmem fd).mpr ⟨hfd, hsilent⟩)
    obtain ⟨e', -, -, ht', -⟩ := hcall call hc
    cases ht.user.symm.trans ht'.user
    exact List.mem_map_of_mem hc

end Sweep

/-! ### Steps -/

/-- The events of the batch are of open descriptors, and of different ones. -/
def BatchOpen (c : Fixed) (s : Server) : Prop :=
  ∀ batch, s.batch = some batch → (batch.map Prod.fst).Nodup ∧
    ∀ fd ∈ batch.map Prod.fst, fd = c.listenfd ∨ fd = c.pipefd₀ ∨ s.Client c fd

lemma Corresponds.congr (hs : s.Corresponds c h ts last) (husers : s'.users = s.users)
    (hlst : s'.timerLst = s.timerLst) (hfds : s'.fds = s.fds) (hnow : s'.now = s.now) :
    s'.Corresponds c h ts last := by
  obtain ⟨users, timerLst, timeout, stopServer, fds, batch, now⟩ := s'
  cases husers
  cases hlst
  cases hfds
  cases hnow
  refine ⟨hs.refines, hs.fixed, ?_, hs.timer⟩
  intro fd hfd
  obtain ⟨hlt, p, e, ht, hlast⟩ := hs.client fd hfd
  exact ⟨hlt, p, e, ⟨ht.user, ht.deadline, ht.carries⟩, hlast⟩

/-- The rest of a batch, when no connection but `fd` was closed. -/
lemma BatchOpen.rest {b : Bool} {rest : List (ℕ × Bool)} (hb : s.BatchOpen c)
    (hbatch : s.batch = some ((fd, b) :: rest)) (hbatch' : s'.batch = some rest)
    (hclient : ∀ fd', fd' ≠ fd → s.Client c fd' → s'.Client c fd') : s'.BatchOpen c := by
  rintro batch h
  cases hbatch'.symm.trans h
  obtain ⟨hnd, hopen⟩ := hb _ hbatch
  rw [List.map_cons, List.nodup_cons] at hnd
  refine ⟨hnd.2, ?_⟩
  intro fd' hfd'
  have hne : fd' ≠ fd := fun heq => hnd.1 (heq ▸ hfd')
  exact (hopen fd' (List.mem_cons_of_mem _ hfd')).imp_right (Or.imp_right (hclient fd' hne))

lemma batchOpen_of_none (h : s.batch = none) : s.BatchOpen c := by
  intro _ h'
  cases h.symm.trans h'

/-- What holds before every event. -/
def Inv (c : Fixed) (s : Server) (es : List Event) : Prop :=
  (∃ h ts, s.Corresponds c h ts (lastActive es)) ∧ s.BatchOpen c

end Server

lemma lastActive_append (es : List Event) (e : Event) (fd : ℕ) :
    lastActive (es ++ [e]) fd = (e.active fd).or (lastActive es fd) := by
  rw [lastActive, List.reverse_append, List.reverse_singleton, List.singleton_append,
    List.findSome?_cons, lastActive]
  cases e.active fd <;> rfl

lemma lastActive_accept (es : List Event) (connfd : ℕ) (cur : ℤ) :
    lastActive (es ++ [.accept connfd cur]) = Function.update (lastActive es) connfd (some cur) := by
  funext fd
  rw [lastActive_append, Event.active]
  by_cases h : connfd = fd
  · subst h
    simp
  · rw [if_neg h, Option.none_or, Function.update_of_ne (Ne.symm h)]

lemma lastActive_read (es : List Event) (fd : ℕ) (r : Received) :
    lastActive (es ++ [.read fd r]) = Server.readAt (lastActive es) fd r := by
  funext fd'
  rw [lastActive_append]
  cases r with
  | data cur =>
    rw [Event.active, Server.readAt]
    by_cases h : fd = fd'
    · subst h
      simp
    · rw [if_neg h, Option.none_or, Function.update_of_ne (Ne.symm h)]
  | eof => rfl
  | eagain => rfl
  | error => rfl

lemma lastActive_other {e : Event} (h : ∀ fd, e.active fd = none) (es : List Event) :
    lastActive (es ++ [e]) = lastActive es := by
  funext fd
  rw [lastActive_append, h, Option.none_or]

namespace Server

/-- The admissible reads are defined. -/
lemma Inv.read {rest : List (ℕ × Bool)} {r : Received} (hi : s.Inv c es)
    (hbatch : s.batch = some ((fd, true) :: rest)) (hlisten : fd ≠ c.listenfd)
    (hpipe : fd ≠ c.pipefd₀) (hr : r.NotBefore s.now) :
    ∃ s', { s with batch := some rest }.read fd r = some s' ∧ s'.Inv c (es ++ [.read fd r]) := by
  obtain ⟨⟨h, ts, hs⟩, hb⟩ := hi
  have hfd : s.Client c fd :=
    (((hb _ hbatch).2 fd List.mem_cons_self).resolve_left hlisten).resolve_left hpipe
  have hs₀ : Corresponds c { s with batch := some rest } h ts (lastActive es) :=
    hs.congr rfl rfl rfl rfl
  obtain ⟨s', h', ts', hs', hcorr, hbatch', hclient⟩ := read_spec hs₀ hfd hr
  exact ⟨s', hs', ⟨h', ts', lastActive_read es fd r ▸ hcorr⟩, hb.rest hbatch hbatch' hclient⟩

lemma Inv.accept {b : Bool} {rest : List (ℕ × Bool)} (hi : s.Inv c es)
    (hbatch : s.batch = some ((c.listenfd, b) :: rest)) (hlt : connfd < fdLimit)
    (hfree : connfd ∉ s.fds) (hle : s.now ≤ cur) :
    ∃ s', { s with batch := some rest }.accept connfd cur = some s' ∧
      s'.Inv c (es ++ [.accept connfd cur]) := by
  obtain ⟨⟨h, ts, hs⟩, hb⟩ := hi
  have hs₀ : Corresponds c { s with batch := some rest } h ts (lastActive es) :=
    hs.congr rfl rfl rfl rfl
  obtain ⟨s', h', ts', hs', hcorr, hbatch', hclient⟩ := accept_spec hs₀ hlt hfree hle
  exact ⟨s', hs', ⟨h', ts', lastActive_accept es connfd cur ▸ hcorr⟩,
    hb.rest hbatch hbatch' fun fd' _ => hclient fd'⟩

lemma Inv.sweep (hi : s.Inv c es) (hle : s.now ≤ cur) :
    ∃ s', { s with batch := none, timeout := false }.timeHandler cur = some s' ∧
      s'.Inv c (es ++ [.sweep cur]) ∧
      ∀ fd, s'.Client c fd ↔ s.Client c fd ∧ ¬ Silent (lastActive es) cur fd := by
  obtain ⟨⟨h, ts, hs⟩, -⟩ := hi
  have hs₀ : Corresponds c { s with batch := none, timeout := false } h ts (lastActive es) :=
    hs.congr rfl rfl rfl rfl
  obtain ⟨s', h', ts', hs', hcorr, hbatch', hclient⟩ := timeHandler_spec hs₀ hle
  have hlast : lastActive (es ++ [.sweep cur]) = lastActive es := lastActive_other (fun _ => rfl) es
  exact ⟨s', hs', ⟨⟨h', ts', hlast ▸ hcorr⟩, batchOpen_of_none hbatch'⟩, hclient⟩

/-- An event that changes no connection and no timer. -/
lemma Inv.other {e : Event} (hi : s.Inv c es) (he : ∀ fd, e.active fd = none)
    (husers : s'.users = s.users) (hlst : s'.timerLst = s.timerLst) (hfds : s'.fds = s.fds)
    (hnow : s'.now = s.now) (hb : s'.BatchOpen c) : s'.Inv c (es ++ [e]) := by
  obtain ⟨⟨h, ts, hs⟩, -⟩ := hi
  refine ⟨⟨h, ts, ?_⟩, hb⟩
  rw [lastActive_other he]
  exact hs.congr husers hlst hfds hnow

end Server

lemma Step.inv {e : Event} (hstep : Step c s e s') (hi : s.Inv c es) : s'.Inv c (es ++ [e]) := by
  cases hstep with
  | epollWait hnone hstop hnd hopen =>
    refine hi.other (fun _ => rfl) rfl rfl rfl rfl ?_
    rintro batch h
    cases h
    exact ⟨hnd, hopen⟩
  | accept hbatch hlt hfree hle haccept =>
    obtain ⟨s₁, hs₁, hi₁⟩ := hi.accept hbatch hlt hfree hle
    cases hs₁.symm.trans haccept
    exact hi₁
  | signals hbatch =>
    exact hi.other (fun _ => rfl) rfl rfl rfl rfl (hi.2.rest hbatch rfl fun _ _ => id)
  | read hbatch hlisten hpipe hr hread =>
    obtain ⟨s₁, hs₁, hi₁⟩ := hi.read hbatch hlisten hpipe hr
    cases hs₁.symm.trans hread
    exact hi₁
  | ignore hbatch hlisten =>
    exact hi.other (fun _ => rfl) rfl rfl rfl rfl (hi.2.rest hbatch rfl fun _ _ => id)
  | sweep hbatch htimeout hle hsweep =>
    obtain ⟨s₁, hs₁, hi₁, -⟩ := hi.sweep hle
    cases hs₁.symm.trans hsweep
    exact hi₁
  | again hbatch htimeout =>
    exact hi.other (fun _ => rfl) rfl rfl rfl rfl (Server.batchOpen_of_none rfl)

/-! ### Runs -/

namespace Server

/-- The open connections and the timers of the list, one to one, through `users[fd].timer` and
`timer->user_data`. -/
structure OneToOne (c : Fixed) (s : Server) (es : List Event) (ts : List ℕ) : Prop where
  isList : IsList s.timerLst.store.links s.timerLst.head ts
  timer : ∀ fd, s.Client c fd → ∃ p ∈ ts, ∃ t last, s.users fd = ⟨fd, some p⟩ ∧
    s.timerLst.store.cell p = some t ∧ t.cbFunc = .cbFunc ∧ t.userData = fd ∧
    lastActive es fd = some last ∧ t.expire = last + 3 * timeslot
  client : ∀ p ∈ ts, ∃ fd t, s.Client c fd ∧ (s.users fd).timer = some p ∧
    s.timerLst.store.cell p = some t ∧ t.userData = fd

/-- Nothing that may happen next closes a descriptor that is not open, leaves the array, or follows a
pointer to a timer that was deleted. -/
structure Defined (c : Fixed) (s : Server) : Prop where
  accept : ∀ b rest connfd cur, s.batch = some ((c.listenfd, b) :: rest) → connfd < fdLimit →
    connfd ∉ s.fds → s.now ≤ cur → ∃ s', { s with batch := some rest }.accept connfd cur = some s'
  read : ∀ fd rest r, s.batch = some ((fd, true) :: rest) → fd ≠ c.listenfd → fd ≠ c.pipefd₀ →
    Received.NotBefore s.now r → ∃ s', { s with batch := some rest }.read fd r = some s'
  sweep : ∀ cur, s.now ≤ cur →
    ∃ s', { s with batch := none, timeout := false }.timeHandler cur = some s'

lemma TimerOf.cell (ht : s.TimerOf h fd p e) (r : s.timerLst.Refines h ts) :
    p ∈ ts ∧ ∃ t, s.timerLst.store.cell p = some t ∧ t.cbFunc = .cbFunc ∧ t.userData = fd ∧
      t.expire = e + 3 * timeslot := by
  obtain ⟨d, hd, hcb, hud⟩ := ht.carries
  obtain ⟨t, hcell, rfl⟩ := Store.cell_of_data hd
  obtain ⟨t', hcell', hexp⟩ := cell_of_expire (r.expire p _ ht.deadline)
  cases hcell.symm.trans hcell'
  exact ⟨(r.lists.mem p).mpr ht.deadline.waits, t, hcell, hcb, hud, hexp⟩

lemma Corresponds.oneToOne (hs : s.Corresponds c h ts (lastActive es)) : s.OneToOne c es ts where
  isList := hs.refines.holds.isList
  timer fd hfd := by
    obtain ⟨-, p, e, ht, hlast, -⟩ := hs.client fd hfd
    obtain ⟨hp, t, hcell, hcb, hud, hexp⟩ := ht.cell hs.refines
    exact ⟨p, hp, t, e, ht.user, hcell, hcb, hud, hlast, hexp⟩
  client p hp := by
    obtain ⟨fd, e, hfd, -, ht, -⟩ := hs.timerOf ((hs.refines.lists.mem p).mp hp)
    obtain ⟨-, t, hcell, -, hud, -⟩ := ht.cell hs.refines
    exact ⟨fd, t, hfd, congrArg ClientData.timer ht.user, hcell, hud⟩

lemma Inv.defined (hi : s.Inv c es) : s.Defined c where
  accept b rest connfd cur hbatch hlt hfree hle := by
    obtain ⟨s', hs', -⟩ := hi.accept hbatch hlt hfree hle
    exact ⟨s', hs'⟩
  read fd rest r hbatch hlisten hpipe hr := by
    obtain ⟨s', hs', -⟩ := hi.read hbatch hlisten hpipe hr
    exact ⟨s', hs'⟩
  sweep cur hle := by
    obtain ⟨s', hs', -⟩ := hi.sweep hle
    exact ⟨s', hs'⟩

/-- In every run the open connections and the timers correspond to each other, nothing is closed or
deleted twice, and a sweep closes exactly the connections that are silent. -/
theorem run_oneToOne {users : ℕ → ClientData} {now : ℤ}
    (hrun : Trace (Step c) (init c users now) es s) :
    (∃ ts, ts.Nodup ∧ s.OneToOne c es ts) ∧ c.all ⊆ s.fds ∧ s.Defined c ∧
      ∀ cur s', Step c s (.sweep cur) s' →
        ∀ fd, s'.Client c fd ↔ s.Client c fd ∧ ¬ Silent (lastActive es) cur fd := by
  have hinit : (init c users now).Inv c [] :=
    ⟨⟨_, _, corresponds_init users now⟩, batchOpen_of_none rfl⟩
  have hi : s.Inv c ([] ++ es) := hrun.history (fun _ _ _ _ hi hstep => hstep.inv hi) hinit
  rw [List.nil_append] at hi
  obtain ⟨h, ts, hs⟩ := hi.1
  refine ⟨⟨ts, hs.refines.lists.nodup, hs.oneToOne⟩, hs.fixed, hi.defined, ?_⟩
  intro cur s' hstep
  cases hstep with
  | sweep hbatch htimeout hle hsweep =>
    obtain ⟨s₁, hs₁, -, hclient⟩ := hi.sweep hle
    cases hs₁.symm.trans hsweep
    exact hclient

/-- The descriptors of a server that starts with 0 to 2 open. -/
def fixedFds : Fixed := ⟨3, 5, {0, 1, 2, 3, 4, 5, 6}, by decide, by decide⟩

/-- A connection is accepted at 100, and an alarm comes. -/
def silentEvents : List Event :=
  [.epollWait [(3, true)], .accept 7 100, .again, .epollWait [(5, true)], .signals [.sigalrm]]

/-- A connection that is silent from 100 to 115 is closed. -/
theorem run_oneToOne_silent :
    ∃ s s', Trace (Step fixedFds) (init fixedFds (fun _ => ⟨0, none⟩) 100) silentEvents s ∧
      Step fixedFds s (.sweep 115) s' ∧ s.Client fixedFds 7 ∧ ¬ s'.Client fixedFds 7 :=
  have hrun : Trace (Step fixedFds) (init fixedFds (fun _ => ⟨0, none⟩) 100) silentEvents _ :=
    .cons (.epollWait rfl rfl (by decide) (by simp [fixedFds])) (.cons (.accept rfl (by decide) (by decide)
      (by decide) rfl) (.cons (.again rfl rfl) (.cons (.epollWait rfl rfl (by decide)
        (by simp [fixedFds])) (.cons (.signals rfl) (.nil _)))))
  have hsweep : Step fixedFds _ (.sweep 115) _ := .sweep rfl rfl (by decide) rfl
  ⟨_, _, hrun, hsweep, ⟨by decide, by decide⟩, fun hclient =>
    (((run_oneToOne hrun).2.2.2 115 _ hsweep 7).mp hclient).2 ⟨100, rfl, by decide⟩⟩

end Server

end LinuxServer.CloseInactivateConn
