import LinuxServer.HttpConn.Basic

/-!
# Receiving a request

`read()` receives until there is nothing left. What the calls of `recv` come to is a sequence, of which
a call of `read()` takes as much as it needs.
-/

namespace LinuxServer.HttpConn

open Core
open ParseHttp (slash)

/-- What a call of `recv` finds. -/
inductive Recv
  /-- Bytes are there. Without one, the stream has ended. -/
  | bytes (chunk : Bytes)
  /-- `EAGAIN` or `EWOULDBLOCK` -/
  | again
  /-- Another error. -/
  | error

/-- The loop of `read`. `recv` takes no more than there is room for, and 0 is also what it returns when
there is no room. -/
def readLoop (s : HttpConn) (recvs : ℕ → Recv) : Bool × HttpConn :=
  match recvs 0 with
  | .again => (false, s)
  | .error => (false, s)
  | .bytes chunk =>
    if chunk.take (readBufferSize - s.readIdx) = [] then
      (false, s)
    else
      (s.append (chunk.take (readBufferSize - s.readIdx))).readLoop fun i => recvs (i + 1)
termination_by readBufferSize - s.readIdx
decreasing_by
  next hne =>
    have hpos := List.length_pos_iff.mpr hne
    rw [List.length_take] at hpos
    simp only [HttpConn.append, List.length_take]
    omega

/-- `read()` -/
def read (s : HttpConn) (recvs : ℕ → Recv) : Bool × HttpConn :=
  if readBufferSize ≤ s.readIdx then (false, s) else s.readLoop recvs

/-- How receiving comes to an end. -/
inductive Ending
  | drained
  | closed
  | failed
  | full
  deriving DecidableEq

/-- What there is to receive with so much room. -/
def received (room : ℕ) (recvs : ℕ → Recv) : Bytes × Ending :=
  if room = 0 then
    ([], .full)
  else
    match recvs 0 with
    | .again => ([], .drained)
    | .error => ([], .failed)
    | .bytes chunk =>
      if chunk = [] then
        ([], .closed)
      else
        let (rest, ending) := received (room - chunk.length) fun i => recvs (i + 1)
        (chunk.take room ++ rest, ending)
termination_by room
decreasing_by
  next hroom hne =>
    have hpos := List.length_pos_iff.mpr hne
    omega

/-- What `read` is to return and to leave, when `got` is there to be received. -/
structure Receives (s : HttpConn) (got : Bytes × Ending) (result : Bool × HttpConn) : Prop where
  returned : result.1 = true ↔ got.2 = .drained
  buffer : got.2 = .drained →
    result.2.readBuf.take result.2.readIdx = s.readBuf.take s.readIdx ++ got.1 ∧
      result.2.readIdx = s.readIdx + got.1.length
  le : result.2.readIdx ≤ readBufferSize
  kept : result.2.readBuf.take s.readIdx = s.readBuf.take s.readIdx

variable {s : HttpConn} {recvs : ℕ → Recv} {chunk chunk' : Bytes} {room : ℕ}

/-! ### Appending -/

lemma append_nil (s : HttpConn) : s.append [] = s := by
  simp only [HttpConn.append, List.append_nil, List.length_nil, Nat.add_zero, List.take_append_drop]

lemma take_append (chunk : Bytes) (hroom : s.readIdx ≤ s.readBuf.length) :
    (s.append chunk).readBuf.take (s.readIdx + chunk.length) = s.readBuf.take s.readIdx ++ chunk := by
  refine List.take_left' ?_
  rw [List.length_append, List.length_take, Nat.min_eq_left hroom]

lemma length_append (hroom : s.readIdx + chunk.length ≤ s.readBuf.length) :
    (s.append chunk).readBuf.length = s.readBuf.length := by
  simp only [HttpConn.append, List.length_append, List.length_take, List.length_drop]
  omega

lemma append_append (hroom : s.readIdx ≤ s.readBuf.length) :
    (s.append chunk).append chunk' = s.append (chunk ++ chunk') := by
  have hdrop : (s.append chunk).readBuf.drop (s.readIdx + chunk.length + chunk'.length) =
      s.readBuf.drop (s.readIdx + (chunk ++ chunk').length) := by
    have hlength : (s.readBuf.take s.readIdx ++ chunk).length = s.readIdx + chunk.length := by
      rw [List.length_append, List.length_take, Nat.min_eq_left hroom]
    rw [HttpConn.append, ← List.drop_drop, List.drop_left' hlength, List.drop_drop, List.length_append,
      Nat.add_assoc]
  have htake := take_append chunk hroom
  rw [HttpConn.append.eq_1 (s.append chunk), HttpConn.append.eq_1 s (chunk ++ chunk')]
  simp only [HttpConn.append] at htake hdrop ⊢
  rw [htake, hdrop, List.length_append, List.append_assoc _ chunk chunk', Nat.add_assoc]

/-! ### The loop -/

/-- `recv` comes to an end. -/
lemma received_nil (h : recvs 0 = .again ∨ recvs 0 = .error ∨ ∃ chunk, recvs 0 = .bytes chunk ∧
    chunk.take room = []) : (received room recvs).1 = [] := by
  rw [received]
  split
  · rfl
  next hroom =>
    rcases h with hrecv | hrecv | ⟨chunk, hrecv, hnil⟩
    · rw [hrecv]
    · rw [hrecv]
    · rw [hrecv]
      dsimp only
      rw [if_pos ((List.take_eq_nil_iff.mp hnil).resolve_left hroom)]

lemma received_bytes (hrecv : recvs 0 = .bytes chunk) (hne : chunk.take room ≠ []) :
    received room recvs =
      (chunk.take room ++ (received (room - chunk.length) fun i => recvs (i + 1)).1,
        (received (room - chunk.length) fun i => recvs (i + 1)).2) := by
  have hroom : room ≠ 0 := fun hfull => hne (by rw [hfull, List.take_zero])
  have hchunk : chunk ≠ [] := fun hnil => hne (by rw [hnil, List.take_nil])
  rw [received, if_neg hroom, hrecv]
  dsimp only
  rw [if_neg hchunk]

/-- Whatever is received, the loop returns false. -/
lemma readLoop_eq (recvs : ℕ → Recv) (hlength : s.readBuf.length = readBufferSize) (hle : s.readIdx ≤ readBufferSize) :
    s.readLoop recvs = (false, s.append (received (readBufferSize - s.readIdx) recvs).1) ∧
      (received (readBufferSize - s.readIdx) recvs).1.length ≤ readBufferSize - s.readIdx := by
  induction s, recvs using readLoop.induct with
  | case1 s recvs hrecv =>
    rw [readLoop, hrecv, received_nil (.inl hrecv), append_nil]
    exact ⟨rfl, Nat.zero_le _⟩
  | case2 s recvs hrecv =>
    rw [readLoop, hrecv, received_nil (.inr (.inl hrecv)), append_nil]
    exact ⟨rfl, Nat.zero_le _⟩
  | case3 s recvs chunk hrecv hnil =>
    rw [readLoop, hrecv, received_nil (.inr (.inr ⟨chunk, hrecv, hnil⟩)), append_nil]
    exact ⟨if_pos hnil, Nat.zero_le _⟩
  | case4 s recvs chunk hrecv hne ih =>
    have hidx : s.readIdx ≤ s.readBuf.length := by rwa [hlength]
    have hchunk : (chunk.take (readBufferSize - s.readIdx)).length ≤ readBufferSize - s.readIdx :=
      List.length_take_le _ _
    have hleft : readBufferSize - (s.append (chunk.take (readBufferSize - s.readIdx))).readIdx =
        readBufferSize - s.readIdx - chunk.length := by
      simp only [HttpConn.append, List.length_take]
      omega
    obtain ⟨hrest, hle'⟩ := ih
      (by rw [length_append (by omega), hlength])
      (by simp only [HttpConn.append]; omega)
    rw [hleft] at hrest hle'
    rw [readLoop, hrecv, received_bytes hrecv hne]
    dsimp only
    rw [if_neg hne, hrest, append_append hidx]
    refine ⟨rfl, ?_⟩
    rw [List.length_append, List.length_take]
    omega

/-! ### A call -/

/-- A call appends what there is to receive. -/
lemma read_eq (recvs : ℕ → Recv) (hlength : s.readBuf.length = readBufferSize)
    (hlt : s.readIdx < readBufferSize) :
    s.read recvs = (false, s.append (received (readBufferSize - s.readIdx) recvs).1) := by
  rw [read, if_neg (not_le.mpr hlt)]
  exact (readLoop_eq recvs hlength hlt.le).1

/-- A call is a step of the connection. -/
lemma read_step (hlength : s.readBuf.length = readBufferSize) (hlt : s.readIdx < readBufferSize) :
    Step s (.append (received (readBufferSize - s.readIdx) recvs).1) (s.read recvs).2 := by
  have hle := (readLoop_eq recvs hlength hlt.le).2
  rw [read_eq recvs hlength hlt]
  exact .append (by omega)

/-- `read` returns what it is to, and leaves what it is to, if and only if receiving does not end with
everything drained. -/
theorem read_receives_iff (hlength : s.readBuf.length = readBufferSize)
    (hlt : s.readIdx < readBufferSize) :
    s.Receives (received (readBufferSize - s.readIdx) recvs) (s.read recvs) ↔
      (received (readBufferSize - s.readIdx) recvs).2 ≠ .drained := by
  have hidx : s.readIdx ≤ s.readBuf.length := by rw [hlength]; exact hlt.le
  have hle := (readLoop_eq recvs hlength hlt.le).2
  rw [read_eq recvs hlength hlt]
  constructor
  · intro hmeets hdrained
    cases hmeets.returned.mpr hdrained
  · intro hending
    refine ⟨⟨nofun, fun hdrained => absurd hdrained hending⟩, fun _ => ⟨?_, rfl⟩, ?_, ?_⟩
    · exact take_append _ hidx
    · simp only [HttpConn.append]
      omega
    · simp only [HttpConn.append, List.append_assoc]
      exact List.take_left' (by rw [List.length_take, Nat.min_eq_left hidx])

/-- Two bytes are received one by one, and then the stream ends. -/
def twoBytes : ℕ → Recv
  | 0 => .bytes [slash]
  | 1 => .bytes [slash]
  | _ + 2 => .bytes []

theorem read_receives_closed :
    received readBufferSize twoBytes = ([slash, slash], .closed) ∧
      init.Receives (received readBufferSize twoBytes) (init.read twoBytes) := by
  have hclosed : received readBufferSize twoBytes = ([slash, slash], .closed) := by
    rw [received_bytes rfl (by decide), received_bytes rfl (by decide), received]
    rfl
  refine ⟨hclosed, (read_receives_iff List.length_replicate (by decide)).mpr ?_⟩
  rw [show readBufferSize - init.readIdx = readBufferSize from rfl, hclosed]
  decide

/-- A byte is received, and then nothing is left. -/
def oneByte : ℕ → Recv
  | 0 => .bytes [slash]
  | _ + 1 => .again

/-- Everything is drained, and `read` returns false. -/
theorem read_notReceives :
    (received readBufferSize oneByte).2 = .drained ∧ (init.read oneByte).1 = false ∧
      ¬ init.Receives (received readBufferSize oneByte) (init.read oneByte) := by
  have hdrained : (received readBufferSize oneByte).2 = .drained := by
    rw [received_bytes rfl (by decide), received]
    rfl
  have hread := read_eq (s := init) oneByte List.length_replicate (by decide)
  refine ⟨hdrained, by rw [hread], fun hmeets => ?_⟩
  have htrue := hmeets.returned.mpr hdrained
  rw [hread] at htrue
  cases htrue

end LinuxServer.HttpConn
