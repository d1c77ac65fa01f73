import LinuxServer.TestEpolloneshot.Basic

/-!
# The text that a thread prints

`worker` clears its buffer once, before its loop, and prints it behind every `recv`. So behind the bytes
of a short `recv` there is printed what an earlier, longer one has left there.
-/

namespace LinuxServer.TestEpolloneshot

open Core

variable {W : Type*} [DecidableEq W] {s s' : TestEpolloneshot W} {w : W}

/-! ### The buffer -/

/-- The buffer behind some calls of `recv`. -/
def filled (got : List Bytes) : Bytes := got.foldl (fun buf data => overwrite data buf) (.replicate bufSize 0)

lemma filled_concat (got : List Bytes) (data : Bytes) :
    filled (got ++ [data]) = overwrite data (filled got) := by
  rw [filled, List.foldl_append]
  rfl

lemma getElem?_overwrite (data buf : Bytes) (n : ℕ) :
    (overwrite data buf)[n]? = if n < data.length then data[n]? else buf[n]? := by
  rw [overwrite, List.getElem?_append]
  split
  next => rfl
  next hn => rw [List.getElem?_drop, Nat.add_sub_cancel' (not_lt.mp hn)]

/-- A place that no `recv` has reached is still cleared. -/
lemma filled_of_le {got : List Bytes} {n : ℕ} (hn : n < bufSize) (h : ∀ data ∈ got, data.length ≤ n) :
    (filled got)[n]? = some 0 := by
  induction got using List.reverseRecOn with
  | nil => exact List.getElem?_replicate_of_lt hn
  | append_singleton got data ih =>
    rw [filled_concat, getElem?_overwrite, if_neg (not_lt.mpr (h data (by simp)))]
    exact ih fun d hd => h d (by simp [hd])

/-- Nothing but a `recv` that ends in front of it leaves a place cleared. -/
lemma filled_eq_zero_iff {got : List Bytes} {n : ℕ} (hn : n < bufSize) (hnul : ∀ data ∈ got, 0 ∉ data) :
    (filled got)[n]? = some 0 ↔ ∀ data ∈ got, data.length ≤ n := by
  refine ⟨fun h => ?_, filled_of_le hn⟩
  induction got using List.reverseRecOn with
  | nil =>
    intro data hdata
    cases hdata
  | append_singleton got data ih =>
    rw [filled_concat, getElem?_overwrite] at h
    split at h
    next => exact absurd (List.mem_of_getElem? h) (hnul data (by simp))
    next hlt =>
      intro d hd
      rcases List.mem_append.mp hd with hold | hnew
      · exact ih (fun d hd => hnul d (by simp [hd])) h d hold
      · rw [List.mem_singleton.mp hnew]
        exact not_lt.mp hlt

lemma cut_eq_nil_iff {buf : Bytes} {n : ℕ} (hn : n < buf.length) :
    cut (buf.drop n) = [] ↔ buf[n]? = some 0 := by
  rw [List.drop_eq_getElem_cons hn, List.getElem?_eq_getElem hn, Option.some_inj]
  by_cases hzero : buf[n] = 0
  · simp [cut, hzero]
  · rw [cut_cons_of_ne hzero]
    exact iff_of_false (List.cons_ne_nil _ _) hzero

/-- What `printf` makes of the buffer behind the last `recv`. -/
lemma cut_filled {got : List Bytes} {data : Bytes} (hnul : 0 ∉ data) :
    cut (filled (got ++ [data])) = data ++ cut ((filled got).drop data.length) := by
  rw [filled_concat, overwrite, cut_append hnul]

lemma length_filled {got : List Bytes} (h : ∀ data ∈ got, data.length ≤ bufSize) :
    (filled got).length = bufSize := by
  induction got using List.reverseRecOn with
  | nil => exact List.length_replicate
  | append_singleton got data ih =>
    have hle := h data (by simp)
    have hrest := ih fun d hd => h d (by simp [hd])
    rw [filled_concat, overwrite, List.length_append, List.length_drop]
    omega

/-! ### Runs -/

/-- What the threads have in their buffers. -/
structure Buffered (s : TestEpolloneshot W) : Prop where
  short : ∀ w, ∀ data ∈ s.got w, data.length ≤ bufSize - 1
  fresh : ∀ w, s.worker w = .none ∨ s.worker w = .start → s.got w = []
  recv : ∀ w fd buf, s.worker w = .recv fd buf → buf = filled (s.got w)
  print : ∀ w fd buf ret p, s.worker w = .print fd buf ret p →
    buf = filled (s.got w) ∧ ∃ got data, s.got w = got ++ [data] ∧ data.length = ret

omit [DecidableEq W] in
lemma buffered_init (listenfd : ℕ) : (init listenfd : TestEpolloneshot W).Buffered where
  short _ _ h := by cases h
  fresh _ _ := rfl
  recv _ _ _ h := by cases h
  print _ _ _ _ _ h := by cases h

/-- One thread goes on. -/
lemma Buffered.move {place : WorkerAt} {g : List Bytes} (h : s.Buffered)
    (hworker : s'.worker = Function.update s.worker w place) (hgot : s'.got = Function.update s.got w g)
    (hshort : ∀ data ∈ g, data.length ≤ bufSize - 1) (hfresh : place = .none ∨ place = .start → g = [])
    (hrecv : ∀ fd buf, place = .recv fd buf → buf = filled g)
    (hprint : ∀ fd buf ret p, place = .print fd buf ret p →
      buf = filled g ∧ ∃ got data, g = got ++ [data] ∧ data.length = ret) : s'.Buffered := by
  constructor <;> intro v <;> rw [hgot] <;> try rw [hworker]
  all_goals by_cases hv : v = w
  all_goals first
    | (subst hv; simp only [Function.update_self]; assumption)
    | simp only [Function.update_of_ne hv]
  · exact h.short v
  · exact h.fresh v
  · exact h.recv v
  · exact h.print v

lemma Step.buffered {e : Event W} (hs : Step s e s') (h : s.Buffered) : s'.Buffered := by
  have hsame : ∀ w, s.got = Function.update s.got w (s.got w) := fun w => (Function.update_eq_self w _).symm
  cases hs with
  | dispatch _ _ _ _ hw =>
    exact h.move rfl (hsame _) (h.short _) (fun _ => h.fresh _ (.inl hw)) (by simp) (by simp)
  | start hw =>
    refine h.move rfl (hsame _) (h.short _) (by simp) (fun fd buf heq => ?_) (by simp)
    cases heq
    rw [h.fresh _ (.inr hw)]
    rfl
  | @recv w sockfd ret buf c hw _ _ hret hle =>
    refine h.move rfl rfl ?_ (by simp) (by simp) fun fd buf' ret' p heq => ?_
    · intro data hdata
      rcases List.mem_append.mp hdata with hold | hnew
      · exact h.short w data hold
      · rw [List.mem_singleton.mp hnew, List.length_take]
        omega
    · cases heq
      refine ⟨?_, _, _, rfl, List.length_take_of_le hle⟩
      rw [filled_concat, h.recv w _ _ hw]
  | recvEnd | recvAgain | reset | close =>
    exact h.move rfl (hsame _) (h.short _) (by simp) (by simp) (by simp)
  | print hw =>
    refine h.move rfl (hsame _) (h.short _) (by simp) (fun fd buf heq => ?_) (by simp)
    cases heq
    exact (h.print _ _ _ _ _ hw).1
  | _ => exact ⟨h.short, h.fresh, h.recv, h.print⟩

/-- In every run, whoever else reads the connection: where a thread prints, its buffer holds a NUL
behind the bytes of its last `recv`. As long as the clients send none, what is printed begins with
these bytes, and is these bytes alone if and only if no earlier `recv` of the thread has got more of
them. -/
theorem run_text {listenfd fd ret p : ℕ} {buf : Bytes} {es : List (Event W)}
    (hrun : Trace Step (init listenfd) es s) (hw : s.worker w = .print fd buf ret p) :
    0 ∈ buf.drop ret ∧ ∃ got data, s.got w = got ++ [data] ∧ data = buf.take ret ∧
      ((∀ piece ∈ s.got w, 0 ∉ piece) → data <+: cut buf ∧
        (cut buf = data ↔ ∀ earlier ∈ got, earlier.length ≤ data.length)) := by
  have h : s.Buffered := hrun.invariant (fun _ _ _ h hs => hs.buffered h) (buffered_init listenfd)
  obtain ⟨hbuf, got, data, hgot, hret⟩ := h.print w fd buf ret p hw
  have hshort := h.short w
  rw [hgot] at hbuf hshort
  have hle : data.length ≤ bufSize - 1 := hshort data (by simp)
  have hlast : buf[bufSize - 1]? = some 0 := by rw [hbuf, filled_of_le (by decide) hshort]
  refine ⟨?_, got, data, hgot, by rw [hbuf, filled_concat, take_overwrite hret], fun hnul => ?_⟩
  · refine List.mem_of_getElem? (i := bufSize - 1 - ret) ?_
    rw [List.getElem?_drop, ← hret, Nat.add_sub_cancel' hle, hlast]
  rw [hgot] at hnul
  have htext : cut buf = data ++ cut ((filled got).drop data.length) := by
    rw [hbuf, cut_filled (hnul data (by simp))]
  have hlen : (filled got).length = bufSize :=
    length_filled fun d hd => (hshort d (by simp [hd])).trans (Nat.sub_le _ _)
  have hlt : data.length < bufSize := by
    have hpos : 0 < bufSize := by decide
    omega
  constructor
  · rw [htext]
    exact List.prefix_append _ _
  · rw [htext, List.append_right_eq_self, cut_eq_nil_iff (by omega),
      filled_eq_zero_iff hlt fun d hd => hnul d (by simp [hd])]

/-- Two bytes, and then one: it is printed with the second one of the earlier two behind it. -/
theorem run_text_stale :
    ∃ (es : List (Event (Fin 1))) (s : TestEpolloneshot (Fin 1)) (buf : Bytes),
      Trace Step (init 3) es s ∧ s.worker 0 = .print 5 buf 1 0 ∧ 0 ∈ buf.drop 1 ∧ [99] <+: cut buf ∧
        cut buf = [99, 98] := by
  have hready : ∀ e ∈ [(⟨5, true⟩ : Ready)],
      (((init 3 : TestEpolloneshot (Fin 1)).wait [⟨3, true⟩]).accept 5 [97, 98, 99] false).Reportable
        e := by
    intro e he
    rw [List.mem_singleton.mp he]
    exact .inr ⟨_, rfl, rfl, rfl, fun _ => rfl⟩
  have hrun : Trace Step (init 3 : TestEpolloneshot (Fin 1))
      [.wait [⟨3, true⟩], .accept 5 [97, 98, 99] false, .wait [⟨5, true⟩], .dispatch 0, .start 0 5,
        .leave, .recv 0 2, .print 0, .recv 0 1] _ :=
    .cons (.wait rfl rfl (by simp) (by decide) (by decide) (by simp [Reportable, init]))
      (.cons (.accept rfl rfl rfl rfl (by decide))
      (.cons (.wait rfl rfl (by simp) (by decide) (by decide) hready)
      (.cons (.dispatch rfl rfl (by decide) rfl rfl)
      (.cons (.start rfl (by decide))
      (.cons (.leave (by decide))
      (.cons (.recv rfl rfl (by decide) (by decide) (by decide))
      (.cons (.print rfl)
      (.cons (.recv rfl rfl (by decide) (by decide) (by decide)) (.nil _)))))))))
  obtain ⟨hnul, got, data, hgot, hdata, htext⟩ :=
    @run_text (Fin 1) _ _ 0 3 5 1 0 [99, 98, 0, 0, 0, 0, 0, 0, 0, 0] _ hrun rfl
  have hfront := (htext (by decide)).1
  rw [hdata] at hfront
  exact ⟨_, _, _, hrun, rfl, hnul, hfront, by decide⟩

end LinuxServer.TestEpolloneshot
