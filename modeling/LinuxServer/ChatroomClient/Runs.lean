import LinuxServer.ChatroomClient.Basic

/-!
# Runs of the client

Nothing of what is typed or received is lost, doubled or exchanged on its way, but it may stay on the
way: in the pipe, when a `splice` to the socket was short or failed, until there is more to be typed;
and for good, when what is typed has an end or the first `splice` fails. Then the second one waits in
front of the empty pipe, and the client does not come back to `poll`.
-/

namespace LinuxServer.ChatroomClient

open Core

variable {s s' : ChatroomClient} {e : Event} {es : List Event} {data : Bytes} {r : Revents}

lemma cut_append_zeros (data : Bytes) (n : ℕ) : cut (data ++ .replicate n 0) = cut data := by
  induction data with
  | nil =>
    cases n with
    | zero => rfl
    | succ n => rfl
  | cons c data ih =>
    by_cases hc : c = 0
    · simp [cut, hc]
    · rw [List.cons_append, cut_cons_of_ne hc, cut_cons_of_ne hc, ih]

/-- The NULs behind what was received end the text. -/
lemma cut_readBuf (data : Bytes) : cut (readBuf data) = cut data := cut_append_zeros data _

/-- What is on the way, and what the client knows where it is. -/
structure Conserved (s : ChatroomClient) : Prop where
  typed : s.sent ++ s.pipe ++ s.input = s.typed
  heard : s.recvs.flatten ++ s.received = s.heard
  output : s.output = s.recvs.map cut
  recvs : ∀ data ∈ s.recvs, data.length < bufferSize
  pipe : s.pipe.length ≤ s.pipeSize
  socket : ∀ r, s.place = .socket r → r.stdin = true → s.input ≠ [] ∨ s.inputEnded = true
  stdin : s.place = .stdin true → s.input ≠ [] ∨ s.inputEnded = true

lemma conserved_init (pipeSize : ℕ) : (init pipeSize).Conserved := by
  refine ⟨rfl, rfl, rfl, ?_, Nat.zero_le _, ?_, ?_⟩ <;> simp [init]

lemma Step.conserved (hs : Step s e s') (h : s.Conserved) : s'.Conserved := by
  cases hs with
  | type data _ =>
    refine ⟨?_, h.heard, h.output, h.recvs, h.pipe, fun r hp hr => ?_, fun hp => ?_⟩
    · show s.sent ++ s.pipe ++ (s.input ++ data) = s.typed ++ data
      rw [← List.append_assoc, h.typed]
    · exact (h.socket r hp hr).imp_left fun hne => by simp [ChatroomClient.type, hne]
    · exact (h.stdin hp).imp_left fun hne => by simp [ChatroomClient.type, hne]
  | endInput =>
    exact ⟨h.typed, h.heard, h.output, h.recvs, h.pipe, fun _ _ _ => .inr rfl, fun _ => .inr rfl⟩
  | arrive data _ =>
    refine ⟨h.typed, ?_, h.output, h.recvs, h.pipe, h.socket, h.stdin⟩
    show s.recvs.flatten ++ (s.received ++ data) = s.heard ++ data
    rw [← List.append_assoc, h.heard]
  | serverCloses => exact ⟨h.typed, h.heard, h.output, h.recvs, h.pipe, h.socket, h.stdin⟩
  | poll r hp hr =>
    refine ⟨h.typed, h.heard, h.output, h.recvs, h.pipe, ?_, by simp [goto]⟩
    rintro _ ⟨⟩
    exact hr.stdin
  | @recv r n hp _ _ _ hlt hle =>
    refine ⟨h.typed, ?_, ?_, ?_, h.pipe, by simp [ChatroomClient.recv], fun hstdin => ?_⟩
    · show (s.recvs ++ [s.received.take n]).flatten ++ s.received.drop n = s.heard
      rw [List.flatten_concat, List.append_assoc, List.take_append_drop, h.heard]
    · show s.output ++ [cut (readBuf (s.received.take n))] = (s.recvs ++ [s.received.take n]).map cut
      rw [List.map_append, h.output, cut_readBuf]
      rfl
    · intro d hd
      rcases List.mem_append.mp hd with hold | hnew
      · exact h.recvs d hold
      · rw [List.mem_singleton.mp hnew, List.length_take_of_le hle]
        exact Nat.lt_of_le_pred (by decide) hlt
    · simp only [ChatroomClient.recv, ClientAt.stdin.injEq] at hstdin
      exact h.socket r hp hstdin
  | @recvFails r hp _ _ =>
    refine ⟨h.typed, ?_, ?_, ?_, h.pipe, by simp [ChatroomClient.recvFails], fun hstdin => ?_⟩
    · show (s.recvs ++ [[]]).flatten ++ s.received = s.heard
      rw [List.flatten_concat, List.append_nil, h.heard]
    · show s.output ++ [cut (readBuf [])] = (s.recvs ++ [[]]).map cut
      rw [List.map_append, h.output, cut_readBuf]
      rfl
    · intro d hd
      rcases List.mem_append.mp hd with hold | hnew
      · exact h.recvs d hold
      · rw [List.mem_singleton.mp hnew]
        decide
    · simp only [ChatroomClient.recvFails, ClientAt.stdin.injEq] at hstdin
      exact h.socket r hp hstdin
  | @skipSocket r hp _ _ =>
    refine ⟨h.typed, h.heard, h.output, h.recvs, h.pipe, by simp [goto], fun hstdin => ?_⟩
    simp only [goto, ClientAt.stdin.injEq] at hstdin
    exact h.socket r hp hstdin
  | pollFails | hangUp | skipStdin | endOfInput | toPipeFails | toSocketFails | sigpipe =>
    exact ⟨h.typed, h.heard, h.output, h.recvs, h.pipe, by simp [goto], by simp [goto]⟩
  | @toPipe n _ _ _ hle hroom =>
    refine ⟨?_, h.heard, h.output, h.recvs, ?_, by simp [ChatroomClient.toPipe],
      by simp [ChatroomClient.toPipe]⟩
    · show s.sent ++ (s.pipe ++ s.input.take n) ++ s.input.drop n = s.typed
      rw [List.append_assoc, List.append_assoc, List.take_append_drop, ← List.append_assoc, h.typed]
    · show (s.pipe ++ s.input.take n).length ≤ s.pipeSize
      rw [List.length_append, List.length_take_of_le hle]
      exact hroom
  | @toSocket n _ _ _ _ =>
    refine ⟨?_, h.heard, h.output, h.recvs, ?_, by simp [ChatroomClient.toSocket],
      by simp [ChatroomClient.toSocket]⟩
    · show s.sent ++ s.pipe.take n ++ s.pipe.drop n ++ s.input = s.typed
      rw [List.append_assoc s.sent, List.take_append_drop, h.typed]
    · exact (List.drop_sublist n s.pipe).length_le.trans h.pipe

lemma run_conserved {pipeSize : ℕ} (hrun : Trace Step (init pipeSize) es s) : s.Conserved :=
  hrun.invariant (fun _ _ _ h hs => hs.conserved h) (conserved_init pipeSize)

/-! ### Up to the server -/

/-- What is read from the terminal is sent before the client comes back to `poll`. -/
def Sends (s' : ChatroomClient) : Prop := s'.place = .poll → s'.sent ++ s'.input = s'.typed

/-- The second `splice` moves everything that is in the pipe. -/
def Whole (s : ChatroomClient) : Event → Prop
  | .toSocket n => n = s.pipe.length
  | .toSocketFails => s.pipe = []
  | _ => True

/-- The pipe is empty but between the two calls of `splice`, as long as the client is alive. -/
structure Emptied (s : ChatroomClient) : Prop extends Conserved s where
  empty : s.place ≠ .toSocket ∧ s.place ≠ .closed → s.pipe = []

lemma Emptied.sends (h : s.Emptied) : s.Sends := by
  intro hpoll
  have htyped := h.typed
  rwa [h.empty (by simp [hpoll]), List.append_nil] at htyped

lemma Step.emptied (hs : Step s e s') (h : s.Emptied) (hwhole : s.Whole e) : s'.Emptied := by
  refine ⟨hs.conserved h.toConserved, ?_⟩
  cases hs with
  | type | endInput | arrive | serverCloses => exact h.empty
  | poll _ hp _ | pollFails hp => exact fun _ => h.empty (by simp [hp])
  | hangUp hp _ => exact fun _ => h.empty (by simp [hp])
  | recv hp _ _ _ _ _ | recvFails hp _ _ | skipSocket hp _ _ => exact fun _ => h.empty (by simp [hp])
  | skipStdin hp => exact fun _ => h.empty (by simp [hp])
  | toPipe | endOfInput | toPipeFails => exact fun hne => absurd rfl hne.1
  | toSocket hp _ _ _ =>
    intro _
    have hall : _ = s.pipe.length := hwhole
    exact List.drop_eq_nil_iff.mpr hall.ge
  | toSocketFails => exact fun _ => hwhole
  | sigpipe => exact fun hne => absurd rfl hne.2

/-- Whenever the client comes back to `poll`, all that it has read from the terminal is sent, if and only
if no `splice` to the socket moves less than what is in the pipe. -/
theorem run_sends_iff {pipeSize : ℕ} :
    Trace (fun s e s' => Step s e s' ∧ s'.Sends) (init pipeSize) es s ↔
      Trace (fun s e s' => Step s e s' ∧ s.Whole e) (init pipeSize) es s := by
  have hinit : (init pipeSize).Emptied := ⟨conserved_init pipeSize, fun _ => rfl⟩
  refine Trace.guard_iff (I := Emptied) ?_ hinit
  intro s e s' h hs
  have hkeep := hs.conserved h.toConserved
  refine ⟨⟨fun hsends => ?_, fun hwhole => (hs.emptied h hwhole).sends⟩, hs.emptied h⟩
  cases hs with
  | @toSocket n hp _ _ hle =>
    have hlen := congrArg List.length (hkeep.typed.trans (hsends rfl).symm)
    have hdrop : (s.toSocket n).pipe.length = s.pipe.length - n := List.length_drop
    rw [List.length_append, List.length_append, List.length_append, hdrop] at hlen
    show n = s.pipe.length
    omega
  | toSocketFails =>
    have hlen := congrArg List.length (hkeep.typed.trans (hsends rfl).symm)
    rw [List.length_append, List.length_append, List.length_append] at hlen
    show s.pipe = []
    exact List.length_eq_zero_iff.mp (show (s.goto .poll).pipe.length = 0 by omega)
  | _ => trivial

/-! ### Down from the server -/

/-- In every run, each `recv` gives one line, the text of what it got; what the lines are of is what the
server has sent, in order, up to what is still at the socket. Without NULs it is these bytes that are
printed. -/
theorem run_shows {pipeSize : ℕ} (hrun : Trace Step (init pipeSize) es s) :
    s.output = s.recvs.map cut ∧ (∀ data ∈ s.recvs, data.length < bufferSize) ∧
      s.recvs.flatten ++ s.received = s.heard ∧ (0 ∉ s.heard → s.output.flatten ++ s.received = s.heard) := by
  have h := run_conserved hrun
  refine ⟨h.output, h.recvs, h.heard, fun hnul => ?_⟩
  have hsame : s.recvs.map cut = s.recvs := by
    refine (List.map_congr_left fun data hdata => ?_).trans (List.map_id _)
    have hmem : 0 ∉ data := by
      intro hzero
      refine hnul ?_
      rw [← h.heard]
      exact List.mem_append_left _ (List.mem_flatten_of_mem hdata hzero)
    have htext := cut_append hmem []
    rwa [List.append_nil, show cut [] = [] from rfl, List.append_nil] at htext
  rw [h.output, hsame, h.heard]

/-- Two calls of `recv`, the second one with a NUL. -/
theorem run_shows_two : ∃ (es : List Event) (s : ChatroomClient), Trace Step (init 65536) es s ∧
    s.recvs = [[111], [107, 0, 33]] ∧ s.output = [[111], [107]] := by
  have hreports : ((init 65536).arrive [111, 107, 0, 33]).Reports ⟨false, true, false⟩ :=
    ⟨rfl, by decide, fun hne => absurd rfl hne, by decide⟩
  have hrun : Trace Step (init 65536)
      [.arrive [111, 107, 0, 33], .poll ⟨false, true, false⟩, .recv 1, .skip, .poll ⟨false, true, false⟩,
        .recv 3] _ :=
    .cons (.arrive _ rfl) (.cons (.poll _ rfl hreports)
      (.cons (.recv rfl rfl rfl (by decide) (by decide) (by decide)) (.cons (.skipStdin rfl)
      (.cons (.poll ⟨false, true, false⟩ rfl ⟨rfl, by decide, by decide, by decide⟩)
      (.cons (.recv rfl rfl rfl (by decide) (by decide) (by decide)) (.nil _))))))
  exact ⟨_, _, hrun, rfl, (run_shows hrun).1⟩

/-! ### Where the client stays -/

/-- The client has left its loop, or waits for what only it could do itself. -/
def Stuck (s : ChatroomClient) : Prop :=
  s.place = .closed ∨ (s.place = .toSocket ∧ s.pipe = []) ∨
    (s.place = .stdin true ∧ s.input ≠ [] ∧ s.pipe.length = s.pipeSize)

/-- No `splice` fails. -/
def Event.Succeeds : Event → Prop
  | .toPipeFails | .toSocketFails => False
  | _ => True

/-- Nothing more is printed or sent. -/
structure Still (s s' : ChatroomClient) : Prop where
  place : s'.place = s.place
  output : s'.output = s.output
  sent : s'.sent = s.sent

lemma Stuck.place (h : s.Stuck) : s.place = .closed ∨ s.place = .toSocket ∨ s.place = .stdin true :=
  h.imp_right (Or.imp And.left And.left)

lemma Step.stuck (hs : Step s e s') (hsucc : e.Succeeds) (h : s.Stuck) : s'.Stuck ∧ s.Still s' := by
  have hplace := h.place
  cases hs with
  | type data _ =>
    refine ⟨h.imp_right (Or.imp_right ?_), rfl, rfl, rfl⟩
    rintro ⟨hp, hne, hfull⟩
    exact ⟨hp, fun hnil => hne (List.append_eq_nil_iff.mp hnil).1, hfull⟩
  | endInput | arrive | serverCloses => exact ⟨h, rfl, rfl, rfl⟩
  | poll _ hp _ | pollFails hp => simp [hp] at hplace
  | hangUp hp _ => simp [hp] at hplace
  | recv hp _ _ _ _ _ | recvFails hp _ _ | skipSocket hp _ _ => simp [hp] at hplace
  | skipStdin hp => simp [hp] at hplace
  | toPipe hp hpos _ _ hroom =>
    rcases h with hc | ⟨hc, -⟩ | ⟨-, -, hfull⟩
    · simp [hp] at hc
    · simp [hp] at hc
    · omega
  | endOfInput hp hnil _ =>
    rcases h with hc | ⟨hc, -⟩ | ⟨-, hne, -⟩
    · simp [hp] at hc
    · simp [hp] at hc
    · exact absurd hnil hne
  | toSocket hp hpos _ hle =>
    rcases h with hc | ⟨-, hpipe⟩ | ⟨hc, -⟩
    · simp [hp] at hc
    · rw [hpipe, List.length_nil] at hle
      omega
    · simp [hp] at hc
  | toPipeFails | toSocketFails => exact hsucc.elim
  | sigpipe hp hne _ =>
    rcases h with hc | ⟨-, hpipe⟩ | ⟨hc, -⟩
    · simp [hp] at hc
    · exact absurd hpipe hne
    · simp [hp] at hc

/-- At the second `splice` with an empty pipe, what is typed has come to its end. -/
def Drained (s : ChatroomClient) : Prop :=
  s.place = .toSocket → s.pipe = [] → s.input = [] ∧ s.inputEnded = true

/-- What waits there else is the client behind a first `splice` that failed. -/
lemma Step.drained (hs : Step s e s') (h : s.Drained) (hne : e ≠ .toPipeFails) : s'.Drained := by
  cases hs with
  | type data hopen =>
    intro hp hpipe
    have hended := (h hp hpipe).2
    rw [hopen] at hended
    cases hended
  | endInput => exact fun hp hpipe => ⟨(h hp hpipe).1, rfl⟩
  | arrive | serverCloses => exact h
  | @toPipe n _ hpos _ hle _ =>
    intro _ hpipe
    have hnil : s.input.take n = [] := (List.append_eq_nil_iff.mp hpipe).2
    rw [← List.length_eq_zero_iff, List.length_take_of_le hle] at hnil
    omega
  | endOfInput _ hnil hended => exact fun _ _ => ⟨hnil, hended⟩
  | toPipeFails => exact absurd rfl hne
  | poll | pollFails | hangUp | recv | recvFails | skipSocket | skipStdin | toSocket | toSocketFails
  | sigpipe =>
    intro hp
    cases hp

end LinuxServer.ChatroomClient
