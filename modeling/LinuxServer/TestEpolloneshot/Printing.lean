import LinuxServer.TestEpolloneshot.Runs

/-!
# What is printed

As long as every connection is in one pair of hands, what a client has sent are the pieces that were
received and printed, then what a thread has in its buffer, then what was not read: so the pieces are
in the order in which they were sent, by however many threads. When everybody has gone home, they are
all of it.

The text that is printed for a piece is another matter: it ends at the piece's first NUL, and goes on
behind a piece without one as far as the buffer does.
-/

namespace LinuxServer.TestEpolloneshot

open Core

variable {W : Type*} {s s' : TestEpolloneshot W} {fd : ℕ} {w : W}

/-! ### Nothing is overlooked -/

def Watching (s : TestEpolloneshot W) : Prop := ∀ fd c, s.conn fd = some c → c.stream.Noticed

lemma watching_update {conn : ℕ → Option Conn} {c : Option Conn}
    (h : ∀ fd c, conn fd = some c → c.stream.Noticed) (hc : ∀ c' ∈ c, c'.stream.Noticed) :
    ∀ fd' c', Function.update conn fd c fd' = some c' → c'.stream.Noticed := by
  intro fd' c' hc'
  by_cases hfd : fd' = fd
  · subst hfd
    exact hc c' (by simpa using hc')
  · exact h fd' c' (by simpa [hfd] using hc')

lemma Step.watching [DecidableEq W] {e : Event W} (hs : Step s e s') (h : s.Watching) : s'.Watching := by
  cases hs with
  | arrive => exact watching_update h fun _ hc' => by cases hc'; exact Watched.noticed_notify _
  | finish => exact watching_update h fun _ hc' => by cases hc'; exact Watched.noticed_notify _
  | wait =>
    intro fd c hc
    change reportAll s.conn _ fd = some c at hc
    rw [reportAll] at hc
    split at hc
    next =>
      obtain ⟨c₀, -, rfl⟩ := Option.map_eq_some_iff.mp hc
      exact Watched.noticed_reportOnce _
    next => exact h fd c hc
  | accept => exact watching_update h fun _ hc' => by cases hc'; exact Watched.noticed_arm _
  | recv _ hc => exact watching_update h fun _ hc' => by cases hc'; exact (h _ _ hc).take _
  | reset =>
    refine watching_update h fun c' hc' => ?_
    obtain ⟨c₀, -, rfl⟩ := Option.map_eq_some_iff.mp hc'
    exact Watched.noticed_arm _
  | close => exact watching_update h fun _ hc' => by cases hc'
  | _ => exact h

/-! ### The account of a client -/

/-- Whose a connection is, what was not read of it, and whether the client has closed its end. -/
def seen (conn : ℕ → Option Conn) (fd : ℕ) : Option (ℕ × Bytes × Bool) :=
  (conn fd).map fun c => (c.client, c.stream.unread, c.stream.ended)

lemma seen_of_conn {conn : ℕ → Option Conn} {c : Conn} (hc : conn fd = some c) :
    seen conn fd = some (c.client, c.stream.unread, c.stream.ended) := by
  rw [seen, hc]
  rfl

lemma seen_update (conn : ℕ → Option Conn) (fd : ℕ) (c : Option Conn) :
    seen (Function.update conn fd c) =
    Function.update (seen conn) fd (c.map fun c => (c.client, c.stream.unread, c.stream.ended)) := by
  funext fd'
  by_cases hfd : fd' = fd
  · subst hfd
    simp [seen]
  · simp [seen, hfd]

lemma seen_reportAll (conn : ℕ → Option Conn) (events : List Ready) :
    seen (reportAll conn events) = seen conn := by
  funext fd
  rw [seen, reportAll]
  split
  next =>
    rw [Option.map_map]
    rfl
  next => rfl

/-- The bytes of a client that were received, up to the last `printf`. -/
def received (s : TestEpolloneshot W) (p : ℕ) : Bytes := ((s.printed p).map Prod.fst).flatten

def Printing (s : TestEpolloneshot W) (fd : ℕ) : Prop :=
  ∃ w buf ret client, s.worker w = .print fd buf ret client

structure Accounted (s : TestEpolloneshot W) : Prop where
  conn : ∀ {fd p u b}, seen s.conn fd = some (p, u, b) →
    fd ≠ s.listenfd ∧ p < s.clients ∧ s.ended p = b
  injective : ∀ {fd fd' p u u' b b'}, seen s.conn fd = some (p, u, b) →
    seen s.conn fd' = some (p, u', b') → fd = fd'
  print : ∀ {w fd buf ret p}, s.worker w = .print fd buf ret p →
    ∃ u b, seen s.conn fd = some (p, u, b) ∧ s.sent p = s.received p ++ buf.take ret ++ u
  rest : ∀ {fd p u b}, seen s.conn fd = some (p, u, b) → ¬ s.Printing fd →
    s.sent p = s.received p ++ u
  close : ∀ {w fd}, s.worker w = .close fd → ∃ p, seen s.conn fd = some (p, [], true)
  gone : ∀ {p}, p < s.clients → (∀ fd u b, seen s.conn fd ≠ some (p, u, b)) →
    s.sent p = s.received p ∧ s.ended p = true
  fresh : ∀ {p}, s.clients ≤ p → s.received p = []

lemma accounted_init (listenfd : ℕ) : (init listenfd : TestEpolloneshot W).Accounted where
  conn h := by cases h
  injective h := by cases h
  print h := by cases h
  rest h := by cases h
  close h := by cases h
  gone h := absurd h (Nat.not_lt_zero _)
  fresh _ := rfl

/-- A step that neither the clients nor the output notice. -/
lemma Accounted.of_seen (h : s.Accounted) (hseen : seen s'.conn = seen s.conn)
    (hl : s'.listenfd = s.listenfd) (hclients : s'.clients = s.clients) (hsent : s'.sent = s.sent)
    (hended : s'.ended = s.ended) (hreceived : s'.received = s.received)
    (hprint : ∀ w fd buf ret p, s'.worker w = .print fd buf ret p ↔ s.worker w = .print fd buf ret p)
    (hclose : ∀ w fd, s'.worker w = .close fd → ∃ p, seen s.conn fd = some (p, [], true)) :
    s'.Accounted := by
  have hprinting : ∀ fd, s'.Printing fd ↔ s.Printing fd := fun fd => by simp only [Printing, hprint]
  constructor <;> simp only [hseen, hl, hclients, hsent, hended, hreceived, hprint, hprinting]
  · exact h.conn
  · exact h.injective
  · exact h.print
  · exact h.rest
  · exact hclose _ _
  · exact h.gone
  · exact h.fresh

/-- A step that changes what is seen of one connection, the connection `fd` of the client `q`. -/
lemma Accounted.change {q : ℕ} {u₀ u₁ : Bytes} {b₀ b₁ : Bool} (h : s.Accounted)
    (hq : seen s.conn fd = some (q, u₀, b₀))
    (hseen : seen s'.conn = Function.update (seen s.conn) fd (some (q, u₁, b₁)))
    (hl : s'.listenfd = s.listenfd) (hclients : s'.clients = s.clients)
    (hsent : ∀ p, p ≠ q → s'.sent p = s.sent p) (hreceived : ∀ p, p ≠ q → s'.received p = s.received p)
    (hended : ∀ p, p ≠ q → s'.ended p = s.ended p) (hendedq : s'.ended q = b₁)
    (hworker : ∀ v fd' buf ret p, fd' ≠ fd →
      (s'.worker v = .print fd' buf ret p ↔ s.worker v = .print fd' buf ret p))
    (hworker' : ∀ v fd', fd' ≠ fd → s'.worker v = .close fd' → s.worker v = .close fd')
    (hprint : ∀ v buf ret p, s'.worker v = .print fd buf ret p →
      p = q ∧ s'.sent q = s'.received q ++ buf.take ret ++ u₁)
    (hrest : ¬ s'.Printing fd → s'.sent q = s'.received q ++ u₁)
    (hclose : ∀ v, s'.worker v = .close fd → u₁ = [] ∧ b₁ = true) : s'.Accounted := by
  have hself : seen s'.conn fd = some (q, u₁, b₁) := by rw [hseen, Function.update_self]
  have hother : ∀ fd', fd' ≠ fd → seen s'.conn fd' = seen s.conn fd' := fun fd' hfd' => by
    rw [hseen, Function.update_of_ne hfd']
  have hne : ∀ {fd' p u b}, fd' ≠ fd → seen s.conn fd' = some (p, u, b) → p ≠ q := by
    rintro fd' p u b hfd' hp rfl
    exact hfd' (h.injective hp hq)
  have hqlt := (h.conn hq).2.1
  constructor
  case conn =>
    intro fd' p u b hp
    rw [hl, hclients]
    by_cases hfd' : fd' = fd
    · subst hfd'
      obtain ⟨rfl, rfl, rfl⟩ : q = p ∧ u₁ = u ∧ b₁ = b := by simpa [hself] using hp
      exact ⟨(h.conn hq).1, hqlt, hendedq⟩
    · rw [hother fd' hfd'] at hp
      rw [hended p (hne hfd' hp)]
      exact h.conn hp
  case injective =>
    intro fd₁ fd₂ p u₁' u₂' b₁' b₂' hp₁ hp₂
    have hback : ∀ {fd' u b}, seen s'.conn fd' = some (p, u, b) → ∃ u b, seen s.conn fd' = some (p, u, b) := by
      intro fd' u b hp
      by_cases hfd' : fd' = fd
      · subst hfd'
        obtain ⟨rfl, -⟩ : q = p ∧ _ := by simpa [hself] using hp
        exact ⟨_, _, hq⟩
      · exact ⟨u, b, by rwa [hother fd' hfd'] at hp⟩
    obtain ⟨_, _, hp₁⟩ := hback hp₁
    obtain ⟨_, _, hp₂⟩ := hback hp₂
    exact h.injective hp₁ hp₂
  case print =>
    intro v fd' buf ret p hv
    by_cases hfd' : fd' = fd
    · subst hfd'
      obtain ⟨rfl, hsent⟩ := hprint v buf ret p hv
      exact ⟨u₁, b₁, hself, hsent⟩
    · obtain ⟨u, b, hp, hsentp⟩ := h.print ((hworker v fd' buf ret p hfd').mp hv)
      have hpq := hne hfd' hp
      exact ⟨u, b, by rw [hother fd' hfd', hp], by rw [hsent p hpq, hreceived p hpq, hsentp]⟩
  case rest =>
    intro fd' p u b hp hnot
    by_cases hfd' : fd' = fd
    · subst hfd'
      obtain ⟨rfl, rfl, -⟩ : q = p ∧ u₁ = u ∧ b₁ = b := by simpa [hself] using hp
      exact hrest hnot
    · rw [hother fd' hfd'] at hp
      have hpq := hne hfd' hp
      rw [hsent p hpq, hreceived p hpq]
      refine h.rest hp fun ⟨v, buf, ret, p', hv⟩ => hnot ⟨v, buf, ret, p', ?_⟩
      exact (hworker v fd' buf ret p' hfd').mpr hv
  case close =>
    intro v fd' hv
    by_cases hfd' : fd' = fd
    · subst hfd'
      obtain ⟨rfl, rfl⟩ := hclose v hv
      exact ⟨q, hself⟩
    · obtain ⟨p, hp⟩ := h.close (hworker' v fd' hfd' hv)
      exact ⟨p, by rw [hother fd' hfd', hp]⟩
  case gone =>
    intro p hp hgone
    have hpq : p ≠ q := fun hpq => hgone fd u₁ b₁ (by rw [hself, hpq])
    rw [hsent p hpq, hreceived p hpq, hended p hpq]
    refine h.gone (by rwa [hclients] at hp) fun fd' u b hp' => ?_
    by_cases hfd' : fd' = fd
    · rw [hfd', hq] at hp'
      simp [hpq.symm] at hp'
    · exact hgone fd' u b (by rw [hother fd' hfd', hp'])
  case fresh =>
    intro p hp
    rw [hclients] at hp
    rw [hreceived p (by omega)]
    exact h.fresh hp

/-! ### The clients -/

lemma Accounted.arrive {c : Conn} {data : Bytes} (h : s.Accounted) (hc : s.conn fd = some c)
    (hopen : c.stream.ended = false) : (s.arrive fd c data).Accounted := by
  have hq := seen_of_conn hc
  have hsentq : (s.arrive fd c data).sent c.client = s.sent c.client ++ data := Function.update_self _ _ _
  refine h.change hq (seen_update _ _ _) rfl rfl (fun p hp => Function.update_of_ne hp _ _)
    (fun _ _ => rfl) (fun _ _ => rfl) (h.conn hq).2.2 (fun _ _ _ _ _ _ => Iff.rfl) (fun _ _ _ hv => hv)
    ?_ ?_ ?_
  · intro v buf ret p hv
    obtain ⟨u, b, hp, hsent⟩ := h.print hv
    obtain ⟨rfl, rfl, -⟩ : c.client = p ∧ c.stream.unread = u ∧ _ := by simpa [hq] using hp
    rw [hsentq, hsent, List.append_assoc]
    exact ⟨rfl, rfl⟩
  · intro hnot
    rw [hsentq, h.rest hq hnot, List.append_assoc]
    rfl
  · intro v hv
    obtain ⟨p, hp⟩ := h.close hv
    rw [hq] at hp
    simp [hopen] at hp

lemma Accounted.finish {c : Conn} (h : s.Accounted) (hc : s.conn fd = some c) :
    (s.finish fd c).Accounted := by
  have hq := seen_of_conn hc
  refine h.change hq (seen_update _ _ _) rfl rfl (fun _ _ => rfl) (fun _ _ => rfl)
    (fun p hp => Function.update_of_ne hp _ _) (Function.update_self _ _ _)
    (fun _ _ _ _ _ _ => Iff.rfl) (fun _ _ _ hv => hv) ?_ (fun hnot => h.rest hq hnot) ?_
  · intro v buf ret p hv
    obtain ⟨u, b, hp, hsent⟩ := h.print hv
    obtain ⟨rfl, rfl, -⟩ : c.client = p ∧ c.stream.unread = u ∧ _ := by simpa [hq] using hp
    exact ⟨rfl, hsent⟩
  · intro v hv
    obtain ⟨p, hp⟩ := h.close hv
    have hnil : c.stream.unread = [] := by
      rw [hq] at hp
      simp only [Option.some.injEq, Prod.mk.injEq] at hp
      exact hp.2.1
    exact ⟨hnil, rfl⟩

lemma Accounted.accept {connfd : ℕ} {data : Bytes} {ended : Bool} (h : s.Accounted)
    (hc : s.conn connfd = none) (hne : connfd ≠ s.listenfd) :
    (s.accept connfd data ended).Accounted := by
  have hnone : seen s.conn connfd = none := by rw [seen, hc]; rfl
  have hself : seen (s.accept connfd data ended).conn connfd = some (s.clients, data, ended) := by
    rw [show seen (s.accept connfd data ended).conn = _ from seen_update _ _ _, Function.update_self]
    rfl
  have hother : ∀ fd', fd' ≠ connfd → seen (s.accept connfd data ended).conn fd' = seen s.conn fd' := by
    intro fd' hfd'
    rw [show seen (s.accept connfd data ended).conn = _ from seen_update _ _ _, Function.update_of_ne hfd']
  have hold : ∀ {fd' x}, seen s.conn fd' = some x → fd' ≠ connfd := by
    rintro fd' x hx rfl
    simp [hnone] at hx
  have hsent : ∀ p, p ≠ s.clients → (s.accept connfd data ended).sent p = s.sent p := fun p hp =>
    Function.update_of_ne hp _ _
  have hended : ∀ p, p ≠ s.clients → (s.accept connfd data ended).ended p = s.ended p := fun p hp =>
    Function.update_of_ne hp _ _
  constructor
  case conn =>
    intro fd' p u b hp
    by_cases hfd' : fd' = connfd
    · subst hfd'
      obtain ⟨rfl, -, rfl⟩ : s.clients = p ∧ _ ∧ ended = b := by simpa [hself] using hp
      exact ⟨hne, Nat.lt_succ_self _, Function.update_self _ _ _⟩
    · rw [hother fd' hfd'] at hp
      obtain ⟨hl, hlt, hb⟩ := h.conn hp
      exact ⟨hl, Nat.lt_succ_of_lt hlt, by rw [hended p hlt.ne, hb]⟩
  case injective =>
    intro fd₁ fd₂ p u₁ u₂ b₁ b₂ hp₁ hp₂
    by_cases h₁ : fd₁ = connfd <;> by_cases h₂ : fd₂ = connfd
    · rw [h₁, h₂]
    · rw [h₁, hself] at hp₁
      rw [hother fd₂ h₂] at hp₂
      have hlt := (h.conn hp₂).2.1
      simp only [Option.some.injEq, Prod.mk.injEq] at hp₁
      omega
    · rw [hother fd₁ h₁] at hp₁
      rw [h₂, hself] at hp₂
      have hlt := (h.conn hp₁).2.1
      simp only [Option.some.injEq, Prod.mk.injEq] at hp₂
      omega
    · rw [hother fd₁ h₁] at hp₁
      rw [hother fd₂ h₂] at hp₂
      exact h.injective hp₁ hp₂
  case print =>
    intro v fd' buf ret p hv
    obtain ⟨u, b, hp, hsentp⟩ := h.print hv
    exact ⟨u, b, by rw [hother fd' (hold hp), hp], by rw [hsent p (h.conn hp).2.1.ne]; exact hsentp⟩
  case rest =>
    intro fd' p u b hp hnot
    by_cases hfd' : fd' = connfd
    · subst hfd'
      obtain ⟨rfl, rfl, -⟩ : s.clients = p ∧ data = u ∧ _ := by simpa [hself] using hp
      show Function.update s.sent s.clients data s.clients = s.received s.clients ++ data
      rw [Function.update_self, h.fresh le_rfl, List.nil_append]
    · rw [hother fd' hfd'] at hp
      rw [hsent p (h.conn hp).2.1.ne]
      exact h.rest hp hnot
  case close =>
    intro v fd' hv
    obtain ⟨p, hp⟩ := h.close hv
    exact ⟨p, by rw [hother fd' (hold hp), hp]⟩
  case gone =>
    intro p hp hgone
    have hpne : p ≠ s.clients := fun hpeq => hgone connfd data ended (by rw [hself, hpeq])
    rw [hsent p hpne, hended p hpne]
    refine h.gone (lt_of_le_of_ne (Nat.lt_succ_iff.mp hp) hpne) fun fd' u b hp' => ?_
    exact hgone fd' u b (by rw [hother fd' (hold hp'), hp'])
  case fresh =>
    intro p hp
    exact h.fresh ((Nat.le_succ _).trans hp)

/-! ### A thread -/

variable [Fintype W] [DecidableEq W]

omit [DecidableEq W] in
/-- No two threads read one connection. -/
lemma HeldOnce.eq_of_reads (h : s.HeldOnce) (hfd : fd ≠ s.listenfd) {v : W}
    (hv : (s.worker v).sockfd? s.arg = some fd) (hw : (s.worker w).sockfd? s.arg = some fd) : v = w := by
  have hone := due_le_one (s.conn fd)
  rw [← h fd hfd, holders] at hone
  have hreaders : s.readers fd ≤ 1 := by omega
  exact eq_of_countAt_le_one hreaders hv hw

omit [DecidableEq W] in
lemma not_printing {q : ℕ} {u : Bytes} {b : Bool} (h : s.Accounted) (hheld : s.HeldOnce)
    (hq : seen s.conn fd = some (q, u, b)) (hw : (s.worker w).sockfd? s.arg = some fd)
    (hne : ∀ buf ret p, s.worker w ≠ .print fd buf ret p) : ¬ s.Printing fd := by
  rintro ⟨v, buf, ret, p, hv⟩
  have hvw : v = w := hheld.eq_of_reads (h.conn hq).1 (by rw [hv]; rfl) hw
  exact hne buf ret p (hvw ▸ hv)

omit [Fintype W] in
lemma goto_of_ne {place : WorkerAt} {v : W} (h : v ≠ w) : (s.goto w place).worker v = s.worker v :=
  Function.update_of_ne h _ _

omit [Fintype W] in
lemma goto_self {place : WorkerAt} : (s.goto w place).worker w = place := Function.update_self _ _ _

omit [Fintype W] in
/-- A thread that goes on with `fd` is at no place of another connection. -/
lemma worker_goto_iff {place place' : WorkerAt} {fd' : ℕ} {arg : Option ℕ} {v : W}
    (hw : (s.worker w).sockfd? arg = some fd) (hp : place.sockfd? arg = some fd)
    (hp' : place'.sockfd? arg = some fd') (hne : fd' ≠ fd) :
    (s.goto w place).worker v = place' ↔ s.worker v = place' := by
  by_cases hv : v = w
  · subst hv
    rw [goto_self]
    refine iff_of_false ?_ ?_
    · rintro rfl
      exact hne (Option.some_inj.mp (hp'.symm.trans hp))
    · intro heq
      rw [heq] at hw
      exact hne (Option.some_inj.mp (hp'.symm.trans hw))
  · rw [goto_of_ne hv]

lemma Accounted.recv {ret : ℕ} {buf : Bytes} {c : Conn} (h : s.Accounted) (hheld : s.HeldOnce)
    (hw : s.worker w = .recv fd buf) (hc : s.conn fd = some c) (hret : ret ≤ c.stream.unread.length) :
    (s.recv w fd buf c ret).Accounted := by
  have hq := seen_of_conn hc
  have hfd : (s.worker w).sockfd? s.arg = some fd := by rw [hw]; rfl
  have hrest := h.rest hq (not_printing h hheld hq hfd (by simp [hw]))
  refine h.change hq (seen_update _ _ _) rfl rfl (fun _ _ => rfl) (fun _ _ => rfl) (fun _ _ => rfl)
    (h.conn hq).2.2 ?_ ?_ ?_ ?_ ?_
  · exact fun v fd' buf' ret' p hne => worker_goto_iff hfd rfl rfl hne
  · exact fun v fd' hne => (worker_goto_iff hfd rfl rfl hne).mp
  · intro v buf' ret' p hv
    have hvw : v = w := by
      by_contra hvw
      have hv' : s.worker v = .print fd buf' ret' p := (goto_of_ne hvw).symm.trans hv
      exact hvw (hheld.eq_of_reads (h.conn hq).1 (by rw [hv']; rfl) hfd)
    have hplace : WorkerAt.print fd (overwrite (c.stream.unread.take ret) buf) ret c.client =
        .print fd buf' ret' p := by
      rw [← hv, hvw]
      exact goto_self.symm
    simp only [WorkerAt.print.injEq, true_and] at hplace
    obtain ⟨rfl, rfl, rfl⟩ := hplace
    refine ⟨rfl, ?_⟩
    rw [take_overwrite (List.length_take_of_le hret), List.append_assoc]
    show s.sent c.client = _ ++ (c.stream.unread.take ret ++ c.stream.unread.drop ret)
    rw [List.take_append_drop]
    exact hrest
  · exact fun hnot => absurd ⟨w, _, _, _, goto_self⟩ hnot
  · intro v hv
    have hvw : v ≠ w := by
      rintro rfl
      have hplace := goto_self.symm.trans hv
      cases hplace
    have hv' : s.worker v = .close fd := (goto_of_ne hvw).symm.trans hv
    exact absurd (hheld.eq_of_reads (h.conn hq).1 (by rw [hv']; rfl) hfd) hvw

omit [Fintype W] in
lemma received_print {ret q : ℕ} {buf : Bytes} :
    (s.print w fd buf ret q).received q = s.received q ++ buf.take ret := by
  rw [received, TestEpolloneshot.print]
  simp [received]

omit [Fintype W] in
lemma received_print_of_ne {ret p q : ℕ} {buf : Bytes} (hp : p ≠ q) :
    (s.print w fd buf ret q).received p = s.received p := by
  rw [received, TestEpolloneshot.print]
  simp [received, hp]

lemma Accounted.printed {ret q : ℕ} {buf : Bytes} (h : s.Accounted) (hheld : s.HeldOnce)
    (hw : s.worker w = .print fd buf ret q) : (s.print w fd buf ret q).Accounted := by
  obtain ⟨u, b, hq, hsent⟩ := h.print hw
  have hfd : (s.worker w).sockfd? s.arg = some fd := by rw [hw]; rfl
  have hseen : seen s.conn = Function.update (seen s.conn) fd (some (q, u, b)) := by
    rw [← hq, Function.update_eq_self]
  refine h.change hq hseen rfl rfl (fun _ _ => rfl) (fun p hp => received_print_of_ne hp)
    (fun _ _ => rfl) (h.conn hq).2.2 ?_ ?_ ?_ ?_ ?_
  · exact fun v fd' buf' ret' p hne => worker_goto_iff hfd rfl rfl hne
  · exact fun v fd' hne => (worker_goto_iff hfd rfl rfl hne).mp
  · intro v buf' ret' p hv
    by_cases hvw : v = w
    · subst hvw
      have hplace := goto_self.symm.trans hv
      cases hplace
    · have hv' : s.worker v = .print fd buf' ret' p := (goto_of_ne hvw).symm.trans hv
      exact absurd (hheld.eq_of_reads (h.conn hq).1 (by rw [hv']; rfl) hfd) hvw
  · intro _
    rw [received_print]
    exact hsent
  · intro v hv
    have hvw : v ≠ w := by
      rintro rfl
      have hplace := goto_self.symm.trans hv
      cases hplace
    have hv' : s.worker v = .close fd := (goto_of_ne hvw).symm.trans hv
    exact absurd (hheld.eq_of_reads (h.conn hq).1 (by rw [hv']; rfl) hfd) hvw

/-- A connection is closed when all of it was printed. -/
lemma Accounted.closed (h : s.Accounted) (hheld : s.HeldOnce) (hw : s.worker w = .close fd) :
    (s.close w fd).Accounted := by
  obtain ⟨q, hq⟩ := h.close hw
  have hfd : (s.worker w).sockfd? s.arg = some fd := by rw [hw]; rfl
  have hseen : ∀ fd', seen (s.close w fd).conn fd' = if fd' = fd then none else seen s.conn fd' := by
    intro fd'
    rw [show seen (s.close w fd).conn = _ from seen_update _ _ _, Function.update_apply]
    rfl
  have hback : ∀ {fd' x}, seen (s.close w fd).conn fd' = some x → fd' ≠ fd ∧ seen s.conn fd' = some x := by
    intro fd' x hx
    rw [hseen] at hx
    split at hx
    next => cases hx
    next hne => exact ⟨hne, hx⟩
  have hold : ∀ {v place}, place ≠ .done → (s.close w fd).worker v = place →
      s.worker v = place ∧ v ≠ w := by
    intro v place hplace hv
    have hvw : v ≠ w := by
      rintro rfl
      exact hplace (hv.symm.trans goto_self)
    exact ⟨(goto_of_ne hvw).symm.trans hv, hvw⟩
  constructor
  case conn => exact fun hp => h.conn (hback hp).2
  case injective => exact fun hp hp' => h.injective (hback hp).2 (hback hp').2
  case print =>
    intro v fd' buf ret p hv
    obtain ⟨hv', hvw⟩ := hold (by simp) hv
    obtain ⟨u, b, hp, hsent⟩ := h.print hv'
    have hne : fd' ≠ fd := by
      rintro rfl
      exact hvw (hheld.eq_of_reads (h.conn hq).1 (by rw [hv']; rfl) hfd)
    exact ⟨u, b, by rw [hseen, if_neg hne, hp], hsent⟩
  case rest =>
    intro fd' p u b hp hnot
    refine h.rest (hback hp).2 fun ⟨v, buf, ret, p', hv⟩ => hnot ⟨v, buf, ret, p', ?_⟩
    have hvw : v ≠ w := by
      rintro rfl
      rw [hv] at hw
      cases hw
    exact (goto_of_ne hvw).trans hv
  case close =>
    intro v fd' hv
    obtain ⟨hv', hvw⟩ := hold (by simp) hv
    obtain ⟨p, hp⟩ := h.close hv'
    have hne : fd' ≠ fd := by
      rintro rfl
      exact hvw (hheld.eq_of_reads (h.conn hq).1 (by rw [hv']; rfl) hfd)
    exact ⟨p, by rw [hseen, if_neg hne, hp]⟩
  case gone =>
    intro p hp hgone
    by_cases hpq : p = q
    · have hrest := h.rest hq (not_printing h hheld hq hfd (by simp [hw]))
      subst hpq
      rw [List.append_nil] at hrest
      exact ⟨hrest, (h.conn hq).2.2⟩
    · refine h.gone hp fun fd' u b hp' => hgone fd' u b ?_
      have hne : fd' ≠ fd := by
        rintro rfl
        rw [hq] at hp'
        simp only [Option.some.injEq, Prod.mk.injEq] at hp'
        exact hpq hp'.1.symm
      rw [hseen, if_neg hne, hp']
  case fresh => exact h.fresh

omit [Fintype W] in
/-- A thread goes on, and neither comes from a `printf` nor goes to one. -/
lemma Accounted.goto {place : WorkerAt} (h : s.Accounted)
    (hw : ∀ fd buf ret p, s.worker w ≠ .print fd buf ret p) (hp : ∀ fd buf ret p, place ≠ .print fd buf ret p)
    (hclose : ∀ fd, place = .close fd → ∃ p, seen s.conn fd = some (p, [], true)) :
    (s.goto w place).Accounted := by
  refine h.of_seen rfl rfl rfl rfl rfl rfl (fun v fd buf ret p => ?_) fun v fd hv => ?_
  · by_cases hv : v = w
    · subst hv
      rw [goto_self]
      exact iff_of_false (hp fd buf ret p) (hw fd buf ret p)
    · rw [goto_of_ne hv]
  · by_cases hvw : v = w
    · subst hvw
      exact hclose fd (goto_self.symm.trans hv)
    · exact h.close ((goto_of_ne hvw).symm.trans hv)

omit [Fintype W] [DecidableEq W] in
/-- The loop goes on, whatever it does to its argument. -/
lemma Accounted.next (h : s.Accounted) (batch : List Ready) (arg : Option ℕ) :
    Accounted { s with batch := batch, arg := arg } :=
  h.of_seen rfl rfl rfl rfl rfl rfl (fun _ _ _ _ _ => Iff.rfl) fun _ _ => h.close

omit [Fintype W] in
lemma Accounted.reset (h : s.Accounted) (hw : s.worker w = .reset fd) : (s.reset w fd).Accounted := by
  have hgo : (s.goto w .done).Accounted := h.goto (by simp [hw]) (by simp) (by simp)
  have hseen : seen (s.reset w fd).conn = seen (s.goto w .done).conn := by
    refine (seen_update _ _ _).trans ?_
    rw [Option.map_map]
    exact Function.update_eq_self fd (seen s.conn)
  exact hgo.of_seen hseen rfl rfl rfl rfl rfl (fun _ _ _ _ _ => Iff.rfl) fun _ _ => hgo.close

lemma Step.accounted {e : Event W} (hs : Step s e s') (h : s.Accounted) (hheld : s.HeldOnce) :
    s'.Accounted := by
  cases hs with
  | arrive hc hopen => exact h.arrive hc hopen
  | finish hc => exact h.finish hc
  | wait =>
    exact h.of_seen (seen_reportAll _ _) rfl rfl rfl rfl rfl (fun _ _ _ _ _ => Iff.rfl) fun _ _ => h.close
  | accept _ _ _ hc hne => exact h.accept hc hne
  | dispatch _ _ _ _ hw => exact (h.next s.batch.tail _).goto (by simp [hw]) (by simp) (by simp)
  | acceptFails | createFails | leave | other => exact h.next _ _
  | start hw => exact h.goto (by simp [hw]) (by simp) (by simp)
  | recv hw hc _ _ hret => exact h.recv hheld hw hc hret
  | recvEnd hw hc hnil hended =>
    refine h.goto (by simp [hw]) (by simp) fun fd hfd => ?_
    cases hfd
    exact ⟨_, by rw [seen_of_conn hc, hnil, hended]⟩
  | recvAgain hw => exact h.goto (by simp [hw]) (by simp) (by simp)
  | recvFails => exact h
  | print hw => exact h.printed hheld hw
  | reset hw => exact h.reset hw
  | close hw => exact h.closed hheld hw

/-! ### The texts -/

/-- A piece that was received, and the text that was printed for it. -/
def Shown (piece text : Bytes) : Prop := cut piece <+: text ∧ (0 ∈ piece → text = cut piece)

lemma shown_take (buf : Bytes) (ret : ℕ) : Shown (buf.take ret) (cut buf) := by
  have hbuf := List.take_append_drop ret buf
  constructor
  · calc cut (buf.take ret) <+: cut (buf.take ret ++ buf.drop ret) := cut_prefix_append _ _
      _ = cut buf := by rw [hbuf]
  · intro hnul
    rw [← cut_append_of_mem hnul (buf.drop ret), hbuf]

def AllShown (s : TestEpolloneshot W) : Prop := ∀ p, ∀ x ∈ s.printed p, Shown x.1 x.2

omit [Fintype W] in
lemma Step.allShown {e : Event W} (hs : Step s e s') (h : s.AllShown) : s'.AllShown := by
  cases hs with
  | @print w sockfd ret client buf =>
    intro p x hx
    by_cases hp : p = client
    · subst hp
      rw [show (s.print w sockfd buf ret p).printed p = _ from Function.update_self _ _ _] at hx
      rcases List.mem_append.mp hx with hold | hnew
      · exact h p x hold
      · rw [List.mem_singleton.mp hnew]
        exact shown_take buf ret
    · rw [show (s.print w sockfd buf ret client).printed p = _ from Function.update_of_ne hp _ _] at hx
      exact h p x hx
  | _ => exact h

/-! ### Runs -/

/-- In a run in which every connection is held once, the pieces of a client that were received and
printed are the front of what it has sent; a text begins with the piece's text, and is this text where
the piece holds a NUL. When every event is handled, every thread is at its end and no connection is
ready, the pieces are all of it, and exactly the connections of the clients that have closed their end
are closed. -/
theorem run_prints {listenfd : ℕ} {es : List (Event W)}
    (hrun : Trace (fun s e s' => Step s e s' ∧ s.Prompt e) (init listenfd) es s) :
    (∀ p < s.clients, s.received p <+: s.sent p ∧ ∀ x ∈ s.printed p, Shown x.1 x.2) ∧
      (s.batch = [] → (∀ w, s.worker w = .none ∨ s.worker w = .done) →
        (∀ fd c, s.conn fd = some c → c.stream.ready = false) →
        ∀ p < s.clients, s.received p = s.sent p ∧
          (s.ended p = true ↔ ∀ fd c, s.conn fd = some c → c.client ≠ p)) := by
  have hkeep : s.Sound ∧ s.Accounted ∧ s.Watching ∧ s.AllShown := by
    refine hrun.invariant (I := fun s => s.Sound ∧ s.Accounted ∧ s.Watching ∧ s.AllShown) ?_
      ⟨sound_init listenfd, accounted_init listenfd, fun _ _ hc => (by cases hc),
        fun _ _ hx => (by cases hx)⟩
    rintro s e s' ⟨hsound, hacc, hwatch, hshown⟩ ⟨hs, hp⟩
    exact ⟨hs.sound hsound hp, hs.accounted hacc hsound.held, hs.watching hwatch, hs.allShown hshown⟩
  obtain ⟨hsound, hacc, hwatch, hshown⟩ := hkeep
  have hgone : ∀ p, (∀ fd c, s.conn fd = some c → c.client ≠ p) ∨ ∃ fd c, s.conn fd = some c ∧ c.client = p := by
    intro p
    by_cases hopen : ∃ fd c, s.conn fd = some c ∧ c.client = p
    · exact .inr hopen
    · exact .inl fun fd c hc hp => hopen ⟨fd, c, hc, hp⟩
  have hnone : ∀ {p}, (∀ fd c, s.conn fd = some c → c.client ≠ p) →
      ∀ fd u b, seen s.conn fd ≠ some (p, u, b) := by
    intro p hp fd u b hseen
    obtain ⟨c, hc, heq⟩ := Option.map_eq_some_iff.mp hseen
    simp only [Prod.mk.injEq] at heq
    exact hp fd c hc heq.1
  constructor
  · intro p hp
    refine ⟨?_, hshown p⟩
    rcases hgone p with hgone | ⟨fd, c, hc, rfl⟩
    · rw [(hacc.gone hp (hnone hgone)).1]
    · by_cases hprinting : s.Printing fd
      · obtain ⟨w, buf, ret, q, hw⟩ := hprinting
        obtain ⟨u, b, hq, hsent⟩ := hacc.print hw
        obtain ⟨rfl, -⟩ : c.client = q ∧ _ := by simpa [seen_of_conn hc] using hq
        rw [hsent, List.append_assoc]
        exact List.prefix_append _ _
      · rw [hacc.rest (seen_of_conn hc) hprinting]
        exact List.prefix_append _ _
  · intro hbatch hdone hready p hp
    rcases hgone p with hgone | ⟨fd, c, hc, rfl⟩
    · obtain ⟨hsent, hended⟩ := hacc.gone hp (hnone hgone)
      exact ⟨hsent.symm, iff_of_true hended hgone⟩
    -- nobody holds the connection, so it is armed, and nothing on it is overlooked
    · have hseen := seen_of_conn hc
      obtain ⟨hne, -, hended⟩ := hacc.conn hseen
      have hreaders : s.readers fd = 0 := countAt_eq_zero.mpr fun w => by
        rcases hdone w with hw | hw <;> simp [hw, WorkerAt.sockfd?]
      have hheld := hsound.held fd hne
      rw [holders, hbatch, hreaders, hc, due] at hheld
      have harmed : c.stream.armed = true := by
        by_contra harmed
        rw [if_neg harmed] at hheld
        cases hheld
      obtain ⟨hnil, hopen⟩ := (hwatch fd c hc).eq_of_not_ready harmed (hready fd c hc)
      have hnot : ¬ s.Printing fd := by
        rintro ⟨w, buf, ret, q, hw⟩
        rcases hdone w with hw' | hw' <;> simp [hw'] at hw
      have hrest := hacc.rest hseen hnot
      rw [hnil, List.append_nil] at hrest
      refine ⟨hrest.symm, iff_of_false ?_ fun hgone => hgone fd c hc rfl⟩
      rw [hended, hopen]
      exact Bool.false_ne_true

/-- A client sends two bytes, one thread prints them, and the connection is armed again. -/
theorem run_prints_one :
    ∃ s : TestEpolloneshot (Fin 1), s.clients = 1 ∧ s.sent 0 = [104, 105] ∧
      s.printed 0 = [([104, 105], [104, 105])] ∧ s.received 0 = s.sent 0 := by
  have hready : ∀ e ∈ [(⟨5, true⟩ : Ready)],
      (((init 3 : TestEpolloneshot (Fin 1)).wait [⟨3, true⟩]).accept 5 [104, 105] false).Reportable
        e := by
    intro e he
    rw [List.mem_singleton.mp he]
    exact .inr ⟨_, rfl, rfl, rfl, fun _ => rfl⟩
  have hrun : Trace (fun s e s' => Step s e s' ∧ s.Prompt e) (init 3 : TestEpolloneshot (Fin 1))
      [.wait [⟨3, true⟩], .accept 5 [104, 105] false, .wait [⟨5, true⟩], .dispatch 0, .start 0 5,
        .leave, .recv 0 2, .print 0, .recvAgain 0, .reset 0] _ :=
    .cons ⟨.wait rfl rfl (by simp) (by decide) (by decide) (by simp [Reportable, init]), trivial⟩
      (.cons ⟨.accept rfl rfl rfl rfl (by decide), trivial⟩
      (.cons ⟨.wait rfl rfl (by simp) (by decide) (by decide) hready, trivial⟩
      (.cons ⟨.dispatch rfl rfl (by decide) rfl rfl, trivial⟩
      (.cons ⟨.start rfl (by decide), trivial⟩
      (.cons ⟨.leave (by decide), by unfold Prompt; decide⟩
      (.cons ⟨.recv rfl rfl (by decide) (by decide) (by decide), trivial⟩
      (.cons ⟨.print rfl, trivial⟩
      (.cons ⟨.recvAgain rfl rfl rfl rfl, trivial⟩
      (.cons ⟨.reset rfl, trivial⟩ (.nil _))))))))))
  refine ⟨_, rfl, rfl, by decide,
    ((run_prints hrun).2 rfl (by decide) (fun fd c hc => ?_) 0 Nat.one_pos).1⟩
  by_cases hfd : fd = 5
  · subst hfd
    cases hc
    rfl
  · simp [TestEpolloneshot.reset, TestEpolloneshot.print, TestEpolloneshot.recv, goto, leave,
      dispatch, setArg, TestEpolloneshot.next, TestEpolloneshot.wait, TestEpolloneshot.accept, init,
      reportAll, hfd] at hc

end LinuxServer.TestEpolloneshot
