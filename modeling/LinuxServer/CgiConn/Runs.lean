import LinuxServer.CgiConn.Basic

/-!
# Runs of a CGI connection

Until there is a pair, `m_buf` holds the bytes received, with NULs behind them, and the search for the
pair goes on one byte before the new ones. What the connection does is then a function of the bytes
of its client: it does not depend on how `recv` cuts them, nor on how many calls of `process` they
are received in.
-/

namespace LinuxServer.CgiConn

open Core

variable {sys : System} {s : CgiConn} {x chunk pad : Bytes} {epollFd sockfd : ℤ} {es : List Event}
  {t t' : Serving} {e : Event}

/-! ### The search for the pair -/

lemma pairEndsAt_spec (hbuf : s.buf = x ++ pad) {idx : ℕ} (hidx : idx < x.length) :
    s.pairEndsAt idx = some (decide (1 ≤ idx ∧ PairAt x (idx - 1))) := by
  rw [pairEndsAt]
  split
  next hle =>
    have hlt : idx - 1 < x.length := by omega
    have hprev : s.buf[idx - 1]? = some x[idx - 1] := by
      rw [hbuf, List.getElem?_append_left hlt, List.getElem?_eq_getElem hlt]
    have hget : s.buf[idx]? = some x[idx] := by
      rw [hbuf, List.getElem?_append_left hidx, List.getElem?_eq_getElem hidx]
    have hpair : PairAt x (idx - 1) ↔ x[idx - 1] = cr ∧ x[idx] = lf := by
      have hsub : idx - 1 + 1 = idx := by omega
      rw [PairAt, hsub, List.getElem?_eq_getElem hlt, List.getElem?_eq_getElem hidx,
        Option.some_inj, Option.some_inj]
    rw [hprev, hget, Option.bind_eq_bind, Option.bind_some]
    split
    next hcr => simp [hpair, hle, hcr, beq_eq_decide]
    next hcr => simp [hpair, hcr]
  next hle => simp [hle]

/-- From a place before which no pair ends, the loop finds the first pair. -/
lemma scanLoop_spec (hbuf : s.buf = x ++ pad) : ∀ n idx, idx + n = x.length →
    (∀ i, i + 1 < idx → ¬ PairAt x i) →
    s.scanLoop n idx = some (((firstPair x).map (· + 1)).getD x.length)
  | 0, idx, hidx, hbefore => by
    have hnone : firstPair x = none := firstPair_eq_none.mpr fun i hi =>
      hbefore i (by have hlt := hi.lt; omega) hi
    rw [scanLoop, hnone, ← hidx]
    rfl
  | n + 1, idx, hidx, hbefore => by
    rw [scanLoop, pairEndsAt_spec hbuf (by omega), Option.bind_eq_bind, Option.bind_some]
    split
    next hpair =>
      obtain ⟨hle, hpair⟩ := of_decide_eq_true hpair
      have hfirst : firstPair x = some (idx - 1) :=
        firstPair_eq_some.mpr ⟨hpair, fun j hj => hbefore j (by omega)⟩
      rw [hfirst, Option.map_some, Option.getD_some]
      congr 1
      omega
    next hpair =>
      apply scanLoop_spec hbuf n (idx + 1) (by omega)
      intro i hi hpair'
      by_cases hi' : i + 1 < idx
      · exact hbefore i hi' hpair'
      · obtain rfl : i = idx - 1 := by omega
        exact hpair (decide_eq_true ⟨by omega, hpair'⟩)

/-! ### A turn with new bytes -/

/-- `m_buf` with the bytes `x` received. -/
def filled (x : Bytes) : Bytes := x ++ List.replicate (bufferSize - x.length) 0

lemma filled_eq (hx : x.length ≤ bufferSize - 1) :
    filled x = x ++ 0 :: List.replicate (bufferSize - 1 - x.length) 0 := by
  have hsub : bufferSize - x.length = bufferSize - 1 - x.length + 1 := by
    have hpos : 0 < bufferSize := by decide
    omega
  rw [filled, hsub, List.replicate_succ]

lemma filled_nul (hx : x.length ≤ bufferSize - 1) : (filled x)[x.length]? = some 0 := by
  simp [filled_eq hx]

/-- The connection waits for more than the bytes `x`. -/
structure Waits (s : CgiConn) (x : Bytes) : Prop where
  buf : s.buf = filled x
  readIdx : s.readIdx = x.length
  le : x.length ≤ bufferSize - 1
  noPair : firstPair x = none

lemma Waits.recv (h : s.Waits x) (hlen : chunk.length ≤ s.asked) : ∃ s', s.recv chunk = some s' ∧
    s' = { s with buf := filled (x ++ chunk), readIdx := (x ++ chunk).length } ∧
    (x ++ chunk).length ≤ bufferSize - 1 := by
  have hle := h.le
  rw [asked, h.readIdx] at hlen
  have hfit : x.length + chunk.length ≤ (filled x).length := by
    rw [filled, List.length_append, List.length_replicate]
    have hpos : 0 < bufferSize := by decide
    omega
  refine ⟨_, ?_, rfl, by rw [List.length_append]; omega⟩
  rw [CgiConn.recv, h.readIdx, h.buf, if_pos hfit, filled, List.take_left,
    List.drop_length_add_append, List.drop_replicate, filled, List.length_append, Nat.sub_sub]

/-- What is done for the program `name`. -/
def served (sys : System) (epollFd sockfd : ℤ) (name : Bytes) : List Effect :=
  if sys.access name && sys.fork then
    [.access name, .execl sockfd name, .removefd epollFd sockfd]
  else
    [.access name, .removefd epollFd sockfd]

lemma serve_spec (sys : System) {i : ℕ} (hbuf : s.buf = filled x) (hx : x.length ≤ bufferSize - 1)
    (hi : i < x.length) : ∃ s', s.serve sys (i + 1) =
      some (served sys s.epollFd s.sockfd (cut (x.take i)), s') ∧
      s' = { s with buf := (filled x).set i 0 } := by
  have hsplit : (filled x).set i 0 =
      x.take i ++ 0 :: (x.drop (i + 1) ++ 0 :: List.replicate (bufferSize - 1 - x.length) 0) := by
    rw [filled_eq hx, List.set_append_left _ _ hi, List.set_eq_take_append_cons_drop, if_pos hi]
    simp
  have htext : textAt ((filled x).set i 0) 0 = some (cut (x.take i)) := by
    rw [hsplit, textAt_zero]
  have hlt : i < (filled x).length := by
    rw [filled_eq hx, List.length_append]
    omega
  refine ⟨_, ?_, rfl⟩
  rw [serve, Nat.add_sub_cancel, hbuf, nulAt_of_lt hlt, Option.bind_eq_bind, Option.bind_some]
  dsimp only
  rw [htext, Option.bind_some, served]
  cases sys.access (cut (x.take i)) <;> cases sys.fork <;> rfl

/-- With new bytes, the connection waits for more or serves the first pair. -/
lemma turn_spec (sys : System) (h : s.Waits x) (hlen : chunk.length ≤ s.asked) :
    ∃ effects again s', s.turn sys (.data chunk) = some (effects, again, s') ∧
      s'.epollFd = s.epollFd ∧ s'.sockfd = s.sockfd ∧ s'.readIdx = (x ++ chunk).length ∧
      (x ++ chunk).length ≤ bufferSize - 1 ∧ s'.buf[s'.readIdx]? = some 0 ∧
      ((firstPair (x ++ chunk) = none ∧ again = true ∧ effects = [] ∧ s'.Waits (x ++ chunk)) ∨
        ∃ i, firstPair (x ++ chunk) = some i ∧ again = false ∧
          effects = served sys s.epollFd s.sockfd (cut ((x ++ chunk).take i))) := by
  obtain ⟨s₁, hrecv, hs₁, hle⟩ := h.recv hlen
  have hbuf : s₁.buf = filled (x ++ chunk) := by rw [hs₁]
  have hread : s₁.readIdx = (x ++ chunk).length := by rw [hs₁]
  have htext : textAt s₁.buf 0 = some (cut (x ++ chunk)) := by
    rw [hbuf, filled_eq hle, textAt_zero]
  have hscan := scanLoop_spec hbuf (s₁.readIdx - s.readIdx) s.readIdx
    (by rw [hread, h.readIdx, List.length_append]; omega) fun i hi hpair =>
      firstPair_eq_none.mp h.noPair i ((pairAt_append_of_lt (h.readIdx ▸ hi)).mp hpair)
  rw [turn, hrecv]
  simp only [Option.bind_eq_bind, Option.bind_some, htext, hscan]
  cases hpair : firstPair (x ++ chunk) with
  | none =>
    refine ⟨[], true, s₁, by simp [hread], by rw [hs₁], by rw [hs₁], hread, hle, ?_,
      .inl ⟨rfl, rfl, rfl, hbuf, hread, hle, hpair⟩⟩
    rw [hread, hbuf, filled_nul hle]
  | some i =>
    have hlt := (firstPair_eq_some.mp hpair).1.lt
    obtain ⟨s₂, hserve, hs₂⟩ := serve_spec sys hbuf hle (by omega : i < (x ++ chunk).length)
    have hne' : i + 1 ≠ s₁.readIdx := by omega
    refine ⟨served sys s₁.epollFd s₁.sockfd _, false, s₂, ?_, by rw [hs₂, hs₁], by rw [hs₂, hs₁], by rw [hs₂, hread], hle, ?_,
      .inr ⟨i, rfl, rfl, by rw [hs₁]⟩⟩
    · simp [hne', hserve]
    · have hread₂ : s₂.readIdx = (x ++ chunk).length := by rw [hs₂, hread]
      rw [hread₂, hs₂]
      dsimp only
      rw [List.getElem?_set_ne (by omega), filled_nul hle]

/-! ### The descriptor -/

/-- A call or a turn that is done on the connection `s`. -/
structure OwnFd (s : CgiConn) (effects : List Effect) (s' : CgiConn) : Prop where
  removefd : ∀ epollFd sockfd, .removefd epollFd sockfd ∈ effects →
    epollFd = s.epollFd ∧ sockfd = s.sockfd
  epollFd : s'.epollFd = s.epollFd
  sockfd : s'.sockfd = s.sockfd

lemma serve_ownFd {sys : System} {idx : ℕ} {effects : List Effect} {s' : CgiConn}
    (h : s.serve sys idx = some (effects, s')) : s.OwnFd effects s' := by
  simp only [serve, Option.bind_eq_bind, Option.bind_eq_some_iff] at h
  obtain ⟨buf, -, name, -, h⟩ := h
  split at h
  · cases h
    exact ⟨by simp, rfl, rfl⟩
  · split at h <;> cases h <;> exact ⟨by simp, rfl, rfl⟩

lemma recv_fds {chunk : Bytes} {s' : CgiConn} (h : s.recv chunk = some s') :
    s'.epollFd = s.epollFd ∧ s'.sockfd = s.sockfd := by
  rw [recv] at h
  split at h <;> cases h
  exact ⟨rfl, rfl⟩

lemma turn_ownFd {sys : System} {r : Recv} {effects : List Effect} {again : Bool} {s' : CgiConn}
    (h : s.turn sys r = some (effects, again, s')) : s.OwnFd effects s' := by
  cases r with
  | error =>
    cases h
    exact ⟨by simp, rfl, rfl⟩
  | eagain =>
    cases h
    exact ⟨by simp, rfl, rfl⟩
  | zero =>
    cases h
    exact ⟨by simp, rfl, rfl⟩
  | data chunk =>
    simp only [turn, Option.bind_eq_bind, Option.bind_eq_some_iff] at h
    obtain ⟨s₁, hrecv, _, -, idx, -, h⟩ := h
    obtain ⟨hepollFd, hsockfd⟩ := recv_fds hrecv
    split at h
    · cases h
      exact ⟨by simp, hepollFd, hsockfd⟩
    · obtain ⟨⟨more, s₂⟩, hserve, h⟩ := Option.bind_eq_some_iff.mp h
      cases h
      have hown := serve_ownFd hserve
      refine ⟨?_, hown.epollFd.trans hepollFd, hown.sockfd.trans hsockfd⟩
      rw [← hepollFd, ← hsockfd]
      exact hown.removefd

/-- `process` removes no other descriptor than its own. -/
lemma process_ownFd {sys : System} : ∀ {rets : List Recv} {s s' : CgiConn} {effects : List Effect},
    s.process sys rets = some (effects, s') → s.OwnFd effects s'
  | [], _, _, _, h => by cases h
  | r :: rest, s, s', effects, h => by
    simp only [process, Option.bind_eq_bind, Option.bind_eq_some_iff] at h
    obtain ⟨⟨effects₁, again, s₁⟩, hturn, h⟩ := h
    have hown := turn_ownFd hturn
    cases again with
    | false =>
      cases h
      exact hown
    | true =>
      obtain ⟨⟨more, s₂⟩, hprocess, h⟩ := Option.bind_eq_some_iff.mp h
      cases h
      have hmore := process_ownFd hprocess
      refine ⟨?_, hmore.epollFd.trans hown.epollFd, hmore.sockfd.trans hown.sockfd⟩
      intro epollFd sockfd hmem
      rcases List.mem_append.mp hmem with hmem | hmem
      · exact hown.removefd _ _ hmem
      · rw [← hown.epollFd, ← hown.sockfd]
        exact hmore.removefd _ _ hmem

/-! ### What a connection has done -/

/-- What is done by the time that `n` bytes of a stream are received: it does not depend on how they
were cut. -/
def outcome (sys : System) (epollFd sockfd : ℤ) (stream : Bytes) (n : ℕ) (ended : Bool) :
    List Effect :=
  match (firstPair stream).filter fun i => i + 2 ≤ n with
  | some i => served sys epollFd sockfd (cut (stream.take i))
  | none => if ended then [.removefd epollFd sockfd] else []

lemma outcome_of_prefix {stream : Bytes} {ended : Bool} (h : x <+: stream) :
    outcome sys epollFd sockfd stream x.length ended = match firstPair x with
      | some i => served sys epollFd sockfd (cut (x.take i))
      | none => if ended then [.removefd epollFd sockfd] else [] := by
  rw [outcome, ← firstPair_of_prefix h]
  cases hpair : firstPair x with
  | none => rfl
  | some i =>
    have hlt := (firstPair_eq_some.mp hpair).1.lt
    obtain ⟨y, rfl⟩ := h
    dsimp only
    rw [List.take_append_of_le_length (by omega)]

lemma removefd_mem_served (name : Bytes) :
    .removefd epollFd sockfd ∈ served sys epollFd sockfd name := by
  rw [served]
  split <;> simp

/-- What has been done, in terms of the bytes received. -/
def done (sys : System) (epollFd sockfd : ℤ) (x : Bytes) (ended : Bool) : List Effect :=
  outcome sys epollFd sockfd x x.length ended

lemma done_of_some {i : ℕ} (h : firstPair x = some i) (ended : Bool) :
    done sys epollFd sockfd x ended = served sys epollFd sockfd (cut (x.take i)) := by
  rw [done, outcome_of_prefix (List.prefix_refl x), h]

lemma done_of_none (h : firstPair x = none) (ended : Bool) :
    done sys epollFd sockfd x ended = if ended then [.removefd epollFd sockfd] else [] := by
  rw [done, outcome_of_prefix (List.prefix_refl x), h]

/-- Something was done only if the descriptor was removed. -/
lemma done_eq_nil {ended : Bool}
    (h : .removefd epollFd sockfd ∉ done sys epollFd sockfd x ended) :
    done sys epollFd sockfd x ended = [] := by
  cases hpair : firstPair x with
  | some i =>
    rw [done_of_some hpair] at h
    exact absurd (removefd_mem_served _) h
  | none =>
    rw [done_of_none hpair] at h ⊢
    cases ended with
    | false => rfl
    | true => simp at h

lemma ended_of_done_eq_nil {ended : Bool} (hpair : firstPair x = none)
    (h : done sys epollFd sockfd x ended = []) : ended = false := by
  rw [done_of_none hpair] at h
  cases ended with
  | false => rfl
  | true => simp at h

/-! ### Runs -/

lemma received_append (es : List Event) (e : Event) :
    received (es ++ [e]) = received es ++ received [e] := by
  simp [received]

lemma ended_append (es : List Event) (e : Event) : ended (es ++ [e]) = (ended es || ended [e]) := by
  simp [ended]

/-- The state of a connection after the events `es`. -/
structure Serves (sys : System) (epollFd sockfd : ℤ) (t : Serving) (es : List Event) : Prop where
  epoll : t.conn.epollFd = epollFd
  socket : t.conn.sockfd = sockfd
  readIdx : t.conn.readIdx = (received es).length
  le : (received es).length ≤ bufferSize - 1
  nul : t.conn.buf[t.conn.readIdx]? = some 0
  effects : t.effects = done sys epollFd sockfd (received es) (ended es)
  waits : t.effects = [] → t.conn.Waits (received es)
  busy : t.inProcess = true → t.effects = []
  room : t.inProcess = false → t.effects = [] → t.conn.asked ≠ 0

lemma serves_init : Serves sys epollFd sockfd (.init epollFd sockfd) [] where
  epoll := rfl
  socket := rfl
  readIdx := rfl
  le := Nat.zero_le _
  nul := rfl
  effects := rfl
  waits _ := ⟨rfl, rfl, Nat.zero_le _, rfl⟩
  busy h := by cases h
  room _ _ := (by decide : bufferSize - 1 ≠ 0)

/-- A turn that receives nothing. -/
lemma Serves.stop {effects : List Effect} {e : Event} (h : Serves sys epollFd sockfd t es)
    (hin : t.inProcess = true) (hreceived : received [e] = [])
    (heffects : effects = if ended [e] then [.removefd epollFd sockfd] else [])
    (hasked : effects = [] → t.conn.asked ≠ 0) :
    Serves sys epollFd sockfd ⟨t.conn, false, t.effects ++ effects⟩ (es ++ [e]) := by
  have hnil := h.busy hin
  have hwaits := h.waits hnil
  have hreceived' : received (es ++ [e]) = received es := by
    rw [received_append, hreceived, List.append_nil]
  have hnot := ended_of_done_eq_nil hwaits.noPair (h.effects.symm.trans hnil)
  have hended : ended (es ++ [e]) = ended [e] := by
    rw [ended_append, hnot, Bool.false_or]
  refine ⟨h.epoll, h.socket, by rw [hreceived', h.readIdx], by rw [hreceived']; exact h.le, h.nul,
    ?_, fun _ => by rw [hreceived']; exact hwaits, fun h => (by cases h), fun _ h' => hasked ?_⟩
  · rw [hreceived', hended, done_of_none hwaits.noPair, hnil, List.nil_append, heffects]
  · rwa [hnil, List.nil_append] at h'

lemma Step.serves (hs : Step sys t e t') (h : Serves sys epollFd sockfd t es) :
    Serves sys epollFd sockfd t' (es ++ [e]) := by
  cases hs with
  | process hin hreg =>
    have hnil : t.effects = [] := by
      rw [h.epoll, h.socket, h.effects] at hreg
      rw [h.effects, done_eq_nil hreg]
    have hreceived : received (es ++ [.process]) = received es := by
      rw [received_append]
      exact List.append_nil _
    have hended : ended (es ++ [.process]) = ended es := by
      rw [ended_append]
      exact Bool.or_false _
    refine ⟨h.epoll, h.socket, ?_, ?_, h.nul, ?_, ?_, fun _ => hnil, fun h => by cases h⟩
    all_goals rw [hreceived]
    · exact h.readIdx
    · exact h.le
    · rw [hended]
      exact h.effects
    · exact h.waits
  | @recv r effects again conn hin hvalid hturn =>
    have hnil := h.busy hin
    have hwaits := h.waits hnil
    cases r with
    | zero =>
      cases hturn
      rw [h.epoll, h.socket]
      exact h.stop hin rfl rfl (by simp)
    | eagain =>
      cases hturn
      exact h.stop hin rfl rfl fun _ => hvalid
    | error =>
      cases hturn
      rw [h.epoll, h.socket]
      exact h.stop hin rfl rfl (by simp)
    | data chunk =>
      obtain ⟨effects', again', conn', hturn', hfd, hsock, hread, hle, hnul, hcase⟩ :=
        turn_spec sys hwaits hvalid.2
      cases hturn.symm.trans hturn'
      have hreceived : received (es ++ [.recv (.data chunk)]) = received es ++ chunk := by
        rw [received_append]
        exact congrArg _ (List.append_nil chunk)
      have hnot := ended_of_done_eq_nil hwaits.noPair (h.effects.symm.trans hnil)
      have hended : ended (es ++ [.recv (.data chunk)]) = false := by
        rw [ended_append, hnot]
        rfl
      rw [h.epoll] at hfd
      rw [h.socket] at hsock
      rw [← hreceived] at hread hle hcase
      rcases hcase with ⟨hpair, rfl, rfl, hwaits'⟩ | ⟨i, hpair, rfl, rfl⟩
      · refine ⟨hfd, hsock, hread, hle, hnul, ?_, fun _ => hwaits', ?_, fun h => by cases h⟩
        · rw [hended, done_of_none hpair, hnil]
          rfl
        · intro _
          rw [hnil]
          rfl
      · refine ⟨hfd, hsock, hread, hle, hnul, ?_, fun h => ?_, fun h => (by cases h), fun _ h => ?_⟩
        · rw [done_of_some hpair, hnil, List.nil_append, h.epoll, h.socket]
        all_goals
          rw [hnil, List.nil_append] at h
          exact absurd h (List.ne_nil_of_mem (removefd_mem_served _))

/-- What a connection does depends on the bytes of its client alone. -/
theorem run_serves {stream : Bytes} (hrun : Trace (Step sys) (.init epollFd sockfd) es t)
    (hstream : received es <+: stream) :
    t.effects = outcome sys epollFd sockfd stream (received es).length (ended es) ∧
      (t.inProcess = true → t.effects = []) ∧
      (t.inProcess = false → t.effects = [] → (received es).length < bufferSize - 1) ∧
      t.conn.readIdx = (received es).length ∧ (received es).length ≤ bufferSize - 1 ∧
      t.conn.buf[t.conn.readIdx]? = some 0 ∧
      (t.inProcess = true → ∀ r, r.Valid t.conn.asked → (t.conn.turn sys r).isSome) := by
  have h : Serves sys epollFd sockfd t ([] ++ es) :=
    hrun.history (fun _ _ _ _ hs hstep => hstep.serves hs) serves_init
  rw [List.nil_append] at h
  refine ⟨?_, h.busy, ?_, h.readIdx, h.le, h.nul, ?_⟩
  · rw [h.effects, done, outcome_of_prefix hstream, outcome_of_prefix (List.prefix_refl _)]
  · intro hin hnil
    have hroom := h.room hin hnil
    rw [asked, h.readIdx] at hroom
    omega
  · intro hin r hr
    cases r with
    | data chunk =>
      obtain ⟨_, _, _, hturn, -⟩ := turn_spec sys (h.waits (h.busy hin)) hr.2
      rw [hturn]
      rfl
    | zero => rfl
    | eagain => rfl
    | error => rfl

/-- `ls`, with the pair behind it received in two calls of `process`. -/
def lsEvents : List Event :=
  [.process, .recv (.data (ascii ['l', 's', '\r'])), .recv .eagain, .process,
    .recv (.data (ascii ['\n']))]

set_option maxRecDepth 8000 in
theorem run_serves_ls : ∃ t, Trace (Step ⟨fun _ => true, true⟩) (.init 3 7) lsEvents t ∧
    t.effects = [.access (ascii ['l', 's']), .execl 7 (ascii ['l', 's']), .removefd 3 7] :=
  have hrun : Trace (Step ⟨fun _ => true, true⟩) (.init 3 7) lsEvents _ :=
    .cons (.process rfl (by decide)) (.cons (.recv rfl (by decide) rfl)
      (.cons (.recv rfl (by decide) rfl) (.cons (.process rfl (by decide))
        (.cons (.recv rfl (by decide) rfl) (.nil _)))))
  ⟨_, hrun, (run_serves hrun (List.prefix_refl _)).1.trans (by decide)⟩

end LinuxServer.CgiConn
