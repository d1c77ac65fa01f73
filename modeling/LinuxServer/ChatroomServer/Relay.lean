import LinuxServer.ChatroomServer.Runs

/-!
# What the chat server relays

A message that is read from a user is there for the others. Nothing is ever written to `write_buf` but
NULL; the sender is looked for among the event masks; and no bit of a mask is ever cleared. What is in
`write_buf` of a user stood there before the user came, and the users are not initialised.
-/

namespace LinuxServer.ChatroomServer

open Core

/-- The branches of the body of the walk. -/
inductive Branch
  | accept
  | hangUp
  | read
  | write
  | skip
  deriving DecidableEq

/-- The branch that is taken at the entry `i`. -/
def branch (s : ChatroomServer) (i : ℕ) : Branch :=
  if (s.fds i).fd = s.listenfd ∧ s.Reports i pollIn then .accept
  else if s.Reports i pollErr then .skip
  else if s.Reports i pollRdHup then .hangUp
  else if s.Reports i pollIn then .read
  else if s.Reports i pollOut then .write
  else .skip

/-- The message that a step reads, with the descriptor it is read from. -/
def message (s : ChatroomServer) (e : Event) : Option (ℤ × List UInt8) :=
  match s.i, e with
  | some i, .examine _ (.bytes data) =>
    if s.branch i = .read ∧ data ≠ [] then some ((s.fds i).fd, data.take (bufferSize - 1)) else none
  | _, _ => none

/-- The descriptor of the user that a step lets in. -/
def admits (s : ChatroomServer) (e : Event) : Option ℤ :=
  match s.i, e with
  | some i, .examine connfd _ =>
    if s.branch i = .accept ∧ 0 ≤ connfd ∧ s.userCounter < userLimit then some connfd else none
  | _, _ => none

/-- The text that a step sends, with the entry of the user it is sent to. -/
def sends (s : ChatroomServer) (e : Event) : Option (ℕ × List UInt8) :=
  match s.i, e with
  | some i, .examine _ _ =>
    if s.branch i = .write then (s.users (s.fds i).fd).writeBuf.map (i, ·) else none
  | _, _ => none

/-- The entry is polled for what can be written, and not for what can be read. -/
def PollFd.ForWriting (p : PollFd) : Prop := p.events &&& pollOut ≠ 0 ∧ p.events &&& pollIn = 0

/-- The entry is polled for what can be read, and not for what can be written. -/
def PollFd.ForReading (p : PollFd) : Prop := p.events &&& pollIn ≠ 0 ∧ p.events &&& pollOut = 0

/-- An entry of a user. -/
def IsUser (s : ChatroomServer) (j : ℕ) : Prop := 1 ≤ j ∧ j ≤ s.userCounter

/-- The server, with what was read from others since a user is connected. -/
structure Relay extends ChatroomServer where
  heard : ℤ → List (List UInt8)

namespace Relay

def start (listenfd : ℤ) (fds : ℕ → PollFd) (users : ℤ → ClientData) : Relay :=
  ⟨.start listenfd fds users, fun _ => []⟩

/-- What is read from one user is heard by the others, and a user that comes has heard nothing. -/
def hear (s : Relay) (e : Event) (fd : ℤ) : List (List UInt8) :=
  if s.admits e = some fd then []
  else match s.message e with
    | none => s.heard fd
    | some (connfd, text) => if fd ∈ s.table ∧ fd ≠ connfd then s.heard fd ++ [text] else s.heard fd

inductive Step : Relay → Event → Relay → Prop
  | step {s : Relay} {e : Event} {t : ChatroomServer} :
      ChatroomServer.Step s.toChatroomServer e t → Step s e ⟨t, s.hear e⟩

/-- What a step is to do: a message becomes pending for all users but its sender; as long as a text is
pending for a user it is polled for writing; what is sent was heard, and then the user is polled for
reading; and nothing is pending for a new user. -/
structure Relays (s : Relay) (e : Event) (s' : Relay) : Prop where
  pending : ∀ connfd text, s.message e = some (connfd, text) → ∀ j, s.IsUser j →
    (s.fds j).fd ≠ connfd → (s'.users (s.fds j).fd).writeBuf = some text
  sender : ∀ connfd text, s.message e = some (connfd, text) → ∀ j, s.IsUser j →
    (s.fds j).fd = connfd → (s'.fds j).events = (s.fds j).events ∧
      (s'.users connfd).writeBuf = (s.users connfd).writeBuf
  held : ∀ j, s'.IsUser j → (s'.users (s'.fds j).fd).writeBuf ≠ none → (s'.fds j).ForWriting
  sent : ∀ i text, s.sends e = some (i, text) → text ∈ s.heard (s.fds i).fd ∧
    (s'.users (s.fds i).fd).writeBuf = none ∧ (s'.fds i).ForReading
  fresh : ∀ connfd, s.admits e = some connfd → (s'.users connfd).writeBuf = none

/-- A message is read only when its sender is the only user, and has a descriptor that its event mask
is equal to; and no user comes whose `write_buf` is not NULL. -/
structure Harmless (s : Relay) (e : Event) : Prop where
  message : ∀ connfd text, s.message e = some (connfd, text) → ∀ j, s.IsUser j →
    (s.fds j).fd = connfd ∧ (s.fds j).events.toInt = connfd
  admits : ∀ connfd, s.admits e = some connfd → (s.users connfd).writeBuf = none

end Relay

/-! ### The users while nothing is relayed -/

/-- The events that a new user is polled for. -/
def requested : BitVec 16 := pollIn ||| pollRdHup ||| pollErr

/-- No mask was changed, and nothing is pending. -/
structure Idle (s : ChatroomServer) : Prop where
  kept : s.Kept
  events : ∀ j, s.IsUser j → (s.fds j).events = requested
  writeBuf : ∀ j, s.IsUser j → (s.users (s.fds j).fd).writeBuf = none

variable {s s' t : ChatroomServer} {i : ℕ} {connfd : ℤ} {received : Recv} {e : Event}

lemma idle_start {listenfd : ℤ} {fds : ℕ → PollFd} {users : ℤ → ClientData} :
    (start listenfd fds users).Idle where
  kept := kept_start
  events _ hj := absurd (hj.1.trans hj.2) (Nat.not_succ_le_zero 0)
  writeBuf _ hj := absurd (hj.1.trans hj.2) (Nat.not_succ_le_zero 0)

/-- The table of users, their masks and what is pending are the same. -/
structure Still (s t : ChatroomServer) : Prop where
  userCounter : t.userCounter = s.userCounter
  fd : ∀ j, (t.fds j).fd = (s.fds j).fd
  events : ∀ j, (t.fds j).events = (s.fds j).events
  writeBuf : ∀ fd, (t.users fd).writeBuf = (s.users fd).writeBuf

lemma Idle.still (h : s.Idle) (ht : s.Still t) (hkept : t.Kept) : t.Idle := by
  refine ⟨hkept, ?_, ?_⟩
  · intro j hj
    rw [IsUser, ht.userCounter] at hj
    rw [ht.events]
    exact h.events j hj
  · intro j hj
    rw [IsUser, ht.userCounter] at hj
    rw [ht.writeBuf, ht.fd]
    exact h.writeBuf j hj

lemma still_receive (connfd : ℤ) (data : List UInt8) : s.Still (s.receive connfd data) := by
  refine ⟨rfl, fun _ => rfl, fun _ => rfl, ?_⟩
  intro fd
  rw [receive]
  dsimp only
  rw [Function.update_apply]
  split
  next heq => rw [heq]
  next => rfl

/-- A user is removed, and the last entry is moved into its place. -/
lemma Idle.remove {n : ℕ} (h : s.Idle) (hn : s.userCounter = n + 1) (hcount : t.userCounter = n)
    (hfds : ∀ j, t.fds j = s.fds j ∨ t.fds j = s.fds (n + 1))
    (husers : ∀ fd, (t.users fd).writeBuf = (s.users fd).writeBuf ∨
      (t.users fd).writeBuf = (s.users (s.fds (n + 1)).fd).writeBuf) (hkept : t.Kept) : t.Idle := by
  have hlast : s.IsUser (n + 1) := ⟨Nat.succ_pos n, hn.ge⟩
  have hentry : ∀ j, t.IsUser j → ∃ k, s.IsUser k ∧ t.fds j = s.fds k := by
    intro j hj
    rcases hfds j with heq | heq
    · refine ⟨j, ⟨hj.1, ?_⟩, heq⟩
      rw [hn]
      exact (hj.2.trans hcount.le).trans (Nat.le_succ n)
    · exact ⟨n + 1, hlast, heq⟩
  refine ⟨hkept, ?_, ?_⟩
  · intro j hj
    obtain ⟨k, hk, heq⟩ := hentry j hj
    rw [heq]
    exact h.events k hk
  · intro j hj
    obtain ⟨k, hk, heq⟩ := hentry j hj
    rw [heq]
    rcases husers (s.fds k).fd with hsame | hmoved
    · rw [hsame]
      exact h.writeBuf k hk
    · rw [hmoved]
      exact h.writeBuf (n + 1) hlast

/-- A user is written behind the last one. -/
lemma Idle.append (h : s.Idle) (hcount : t.userCounter = s.userCounter + 1)
    (hfds : t.fds = Function.update s.fds (s.userCounter + 1) ⟨connfd, requested, 0⟩)
    (husers : t.users = s.users) (hfree : (s.users connfd).writeBuf = none) (hkept : t.Kept) : t.Idle := by
  have hnew : t.fds (s.userCounter + 1) = ⟨connfd, requested, 0⟩ := by
    rw [hfds, Function.update_self]
  have hold : ∀ j, j ≤ s.userCounter → t.fds j = s.fds j := by
    intro j hj
    rw [hfds, Function.update_of_ne (Nat.lt_succ_of_le hj).ne]
  have hcases : ∀ j, t.IsUser j → s.IsUser j ∨ j = s.userCounter + 1 := by
    intro j hj
    rcases (hj.2.trans_eq hcount).eq_or_lt with heq | hlt
    · exact .inr heq
    · exact .inl ⟨hj.1, Nat.le_of_lt_succ hlt⟩
  refine ⟨hkept, ?_, ?_⟩
  · intro j hj
    rcases hcases j hj with huser | rfl
    · rw [hold j huser.2]
      exact h.events j huser
    · rw [hnew]
  · intro j hj
    rw [husers]
    rcases hcases j hj with huser | rfl
    · rw [hold j huser.2]
      exact h.writeBuf j huser
    · rw [hnew]
      exact hfree

/-! ### The branches -/

lemma examine_eq : s.examine i connfd received =
    match s.branch i with
    | .accept => (s.look i).accept i connfd
    | .skip => some ((s.look i).next (i + 1))
    | .hangUp => (s.look i).hangUp i
    | .read => (s.look i).read i received
    | .write => some ((s.look i).write i) := by
  rw [examine, branch]
  have hreports : ∀ flag, (s.look i).Reports i flag ↔ s.Reports i flag := fun _ => Iff.rfl
  dsimp only
  simp only [hreports]
  split_ifs <;> rfl

lemma message_of_ne (hi : s.i = some i) (hb : s.branch i ≠ .read) :
    s.message (.examine connfd received) = none := by
  rw [message.eq_def, hi]
  cases received with
  | error => rfl
  | bytes data => exact if_neg fun h => hb h.1

lemma message_read {data : List UInt8} (hi : s.i = some i) (hb : s.branch i = .read) (hne : data ≠ []) :
    s.message (.examine connfd (.bytes data)) = some ((s.fds i).fd, data.take (bufferSize - 1)) := by
  rw [message.eq_def, hi]
  exact if_pos ⟨hb, hne⟩

lemma admits_of_ne (hi : s.i = some i) (hb : s.branch i ≠ .accept) :
    s.admits (.examine connfd received) = none := by
  rw [admits.eq_def, hi]
  exact if_neg fun h => hb h.1

lemma admits_accept (hi : s.i = some i) (hb : s.branch i = .accept) :
    s.admits (.examine connfd received) =
      if 0 ≤ connfd ∧ s.userCounter < userLimit then some connfd else none := by
  rw [admits.eq_def, hi]
  simp only [hb, true_and]

lemma sends_eq_some {text : List UInt8} {j : ℕ} (h : s.sends e = some (j, text)) :
    s.i = some j ∧ s.branch j = .write ∧ (s.users (s.fds j).fd).writeBuf = some text := by
  rw [sends.eq_def] at h
  split at h
  next i connfd received hi =>
    split at h
    next hb =>
      obtain ⟨text', htext, heq⟩ := Option.map_eq_some_iff.mp h
      cases heq
      exact ⟨hi, hb, htext⟩
    next => cases h
  next => cases h

/-- What is reported where the entry of a user is dealt with. -/
lemma branch_reports : (s.branch i = .hangUp → s.Reports i pollRdHup) ∧
    (s.branch i = .read → s.Reports i pollIn ∧ (s.fds i).fd ≠ s.listenfd) ∧
      (s.branch i = .write → s.Reports i pollOut) := by
  rw [branch]
  split_ifs with hlisten herr hup hin hout
  · exact ⟨nofun, nofun, nofun⟩
  · exact ⟨nofun, nofun, nofun⟩
  · exact ⟨fun _ => hup, nofun, nofun⟩
  · exact ⟨nofun, fun _ => ⟨hin, fun heq => hlisten ⟨heq, hin⟩⟩, nofun⟩
  · exact ⟨nofun, nofun, fun _ => hout⟩
  · exact ⟨nofun, nofun, nofun⟩

/-- The entries 1, 2, .. are those of users. -/
lemma Idle.isUser (h : s.Idle) (hi : s.i = some i)
    (hb : s.branch i = .hangUp ∨ s.branch i = .read ∨ s.branch i = .write) : s.IsUser i := by
  refine ⟨?_, h.kept.index i hi⟩
  rw [Nat.one_le_iff_ne_zero]
  rintro rfl
  obtain ⟨hup, hread, hwrite⟩ := branch_reports (s := s) (i := 0)
  rcases hb with hb | hb | hb
  · exact h.kept.not_reports (by decide) (hup hb)
  · exact (hread hb).2 h.kept.fd
  · exact h.kept.not_reports (by decide) (hwrite hb)

lemma Idle.sends (h : s.Idle) : s.sends e = none := by
  rw [Option.eq_none_iff_forall_ne_some]
  rintro ⟨j, text⟩ hsends
  obtain ⟨hj, hb, htext⟩ := sends_eq_some hsends
  have hnone := h.writeBuf j (h.isUser hj (.inr (.inr hb)))
  cases htext.symm.trans hnone

/-! ### Steps -/

namespace Relay

variable {r r' : Relay} {heard : ℤ → List (List UInt8)}

/-- A step that reads no message and lets in nobody for whom something is pending. -/
lemma relays_of_idle (h : r.Idle) (ht : t.Idle) (hmessage : r.message e = none)
    (hadmits : ∀ connfd, r.admits e = some connfd → (t.users connfd).writeBuf = none) :
    r.Relays e ⟨t, heard⟩ where
  pending connfd text hread := by cases hmessage.symm.trans hread
  sender connfd text hread := by cases hmessage.symm.trans hread
  held j hj hne := absurd (ht.writeBuf j hj) hne
  sent i text hsends := by cases h.sends.symm.trans hsends
  fresh := hadmits

/-- A step that neither reads a message nor lets in a user. -/
lemma iff_of_idle (h : r.Idle) (ht : t.Idle) (hmessage : r.message e = none) (hadmits : r.admits e = none) :
    (r.Relays e ⟨t, heard⟩ ↔ r.Harmless e) ∧ (r.Harmless e → t.Idle) := by
  refine ⟨iff_of_true (relays_of_idle h ht hmessage ?_) ⟨?_, ?_⟩, fun _ => ht⟩
  · intro connfd hconnfd
    cases hadmits.symm.trans hconnfd
  · intro connfd text hread
    cases hmessage.symm.trans hread
  · intro connfd hconnfd
    cases hadmits.symm.trans hconnfd

lemma accept_iff (h : r.Idle) (hi : r.i = some i) (hb : r.branch i = .accept)
    (ht : (r.look i).accept i connfd = some t) (hkept : t.Kept) :
    (r.Relays (.examine connfd received) ⟨t, heard⟩ ↔ r.Harmless (.examine connfd received)) ∧
      (r.Harmless (.examine connfd received) → t.Idle) := by
  have hmessage : r.message (.examine connfd received) = none := message_of_ne hi (by rw [hb]; decide)
  have hadmits : r.admits (.examine connfd received) =
      if 0 ≤ connfd ∧ r.userCounter < userLimit then some connfd else none := admits_accept hi hb
  rw [accept] at ht
  split at ht
  next hneg =>
    cases ht
    rw [if_neg fun hpos => absurd hneg (not_lt.mpr hpos.1)] at hadmits
    exact iff_of_idle h (h.still ⟨rfl, fun _ => rfl, fun _ => rfl, fun _ => rfl⟩ hkept) hmessage hadmits
  next hpos =>
    dsimp only at ht
    split at ht
    next hfull =>
      rw [if_neg fun hroom => absurd hfull (not_le.mpr hroom.2)] at hadmits
      rw [close, if_pos (Finset.mem_insert_self _ _)] at ht
      cases ht
      exact iff_of_idle h (h.still ⟨rfl, fun _ => rfl, fun _ => rfl, fun _ => rfl⟩ hkept) hmessage hadmits
    next hroom =>
      rw [if_pos ⟨not_lt.mp hpos, not_le.mp hroom⟩] at hadmits
      have husers : t.users = r.users := by
        cases ht
        rfl
      have hkeep : (r.users connfd).writeBuf = none → t.Idle := by
        intro hfree
        cases ht
        exact h.append (t := ChatroomServer.next _ _) rfl rfl rfl hfree hkept
      refine ⟨⟨?_, ?_⟩, fun hharmless => hkeep (hharmless.admits connfd hadmits)⟩
      · intro hrelays
        refine ⟨?_, ?_⟩
        · intro c text hread
          cases hmessage.symm.trans hread
        · intro c hc
          cases hadmits.symm.trans hc
          rw [← husers]
          exact hrelays.fresh connfd hadmits
      · intro hharmless
        have hfree := hharmless.admits connfd hadmits
        apply relays_of_idle h (hkeep hfree) hmessage
        intro c hc
        cases hadmits.symm.trans hc
        rw [husers]
        exact hfree

/-- Both ways to close a connection. -/
lemma idle_of_close {users : ℤ → ClientData} (h : r.Idle) (huser : r.IsUser i)
    (husers : ∀ fd, (users fd).writeBuf = (r.users fd).writeBuf)
    (ht : hangUp { r.look i with users := users } i = some t ∨
      readFails { r.look i with users := users } i = some t) (hkept : t.Kept) : t.Idle := by
  have hmem := (h.kept.ne_listenfd huser.1 huser.2).1
  obtain ⟨n, hn⟩ : ∃ n, r.userCounter = n + 1 :=
    Nat.exists_eq_succ_of_ne_zero (by have := huser.1.trans huser.2; omega)
  obtain ⟨u, hu, hhangUp, hread⟩ := close_eq (s := { r.look i with users := users }) hmem hn
  have hut : u.next i = t := by
    rcases ht with ht | ht
    · exact Option.some.inj (hhangUp.symm.trans ht)
    · exact Option.some.inj (hread.symm.trans ht)
  subst hut
  refine h.remove (t := u.next i) hn ?_ ?_ ?_ hkept
  · rw [hu]
    rfl
  · intro j
    have hj : (u.next i).fds j = Function.update r.fds i (r.fds (n + 1)) j := by
      rw [hu]
      rfl
    rw [hj, Function.update_apply]
    split
    next => exact .inr rfl
    next => exact .inl rfl
  · intro fd
    have hfd : (u.next i).users fd = Function.update users (r.fds i).fd (users (r.fds r.userCounter).fd) fd := by
      rw [hu]
      rfl
    rw [hfd, Function.update_apply, hn]
    split
    next => exact .inr (husers _)
    next => exact .inl (husers _)

/-- A message of the user at the entry `i`. -/
lemma message_iff {data : List UInt8} (h : r.Idle) (hi : r.i = some i) (hb : r.branch i = .read)
    (hne : data ≠ []) (hkept : Kept ((((r.look i).receive (r.fds i).fd data).notify (r.fds i).fd).next (i + 1))) :
    (r.Relays (.examine connfd (.bytes data))
        ⟨(((r.look i).receive (r.fds i).fd data).notify (r.fds i).fd).next (i + 1), heard⟩ ↔
      r.Harmless (.examine connfd (.bytes data))) ∧
    (r.Harmless (.examine connfd (.bytes data)) →
      Idle ((((r.look i).receive (r.fds i).fd data).notify (r.fds i).fd).next (i + 1))) := by
  have hmessage : r.message (.examine connfd (.bytes data)) =
      some ((r.fds i).fd, data.take (bufferSize - 1)) := message_read hi hb hne
  have hadmits : r.admits (.examine connfd (.bytes data)) = none := admits_of_ne hi (by rw [hb]; decide)
  have hsame := (still_receive (s := r.look i) (r.fds i).fd data).writeBuf
  have hkeep : r.Harmless (.examine connfd (.bytes data)) →
      r.Still ((((r.look i).receive (r.fds i).fd data).notify (r.fds i).fd).next (i + 1)) := by
    intro hharmless
    have hfds : ((((r.look i).receive (r.fds i).fd data).notify (r.fds i).fd).next (i + 1)).fds = r.fds := by
      funext j
      apply if_neg
      rintro ⟨huser, hmask⟩
      exact hmask (hharmless.message _ _ hmessage j huser).2
    refine ⟨rfl, ?_, ?_, hsame⟩
    · intro j
      rw [hfds]
    · intro j
      rw [hfds]
  refine ⟨⟨?_, ?_⟩, fun hharmless => h.still (hkeep hharmless) hkept⟩
  · intro hrelays
    refine ⟨?_, ?_⟩
    · intro c text hread j huser
      cases hmessage.symm.trans hread
      have hsender : (r.fds j).fd = (r.fds i).fd := by
        by_contra hother
        have hpending := hrelays.pending _ _ hmessage j huser hother
        cases ((hsame _).symm.trans hpending).symm.trans (h.writeBuf j huser)
      refine ⟨hsender, ?_⟩
      by_contra hmask
      have hevents := (hrelays.sender _ _ hmessage j huser hsender).1
      have hchanged : ((((r.look i).receive (r.fds i).fd data).notify (r.fds i).fd).next (i + 1)).fds j =
          { r.fds j with events := (r.fds j).events ||| ~~~pollIn ||| pollOut } := if_pos ⟨huser, hmask⟩
      have hbits : (r.fds j).events ||| ~~~pollIn ||| pollOut = (r.fds j).events :=
        (congrArg PollFd.events hchanged).symm.trans hevents
      rw [h.events j huser] at hbits
      exact absurd hbits (by decide)
    · intro c hc
      cases hadmits.symm.trans hc
  · intro hharmless
    have hstill := hkeep hharmless
    have hidle := h.still hstill hkept
    refine ⟨?_, ?_, fun j hj hpending => absurd (hidle.writeBuf j hj) hpending, ?_, ?_⟩
    · intro c text hread j huser hother
      exact absurd (hharmless.message c text hread j huser).1 hother
    · intro c text hread j huser hsender
      exact ⟨hstill.events j, hstill.writeBuf c⟩
    · intro k text hsends
      cases h.sends.symm.trans hsends
    · intro c hc
      cases hadmits.symm.trans hc

lemma read_iff (h : r.Idle) (hi : r.i = some i) (hb : r.branch i = .read)
    (ht : (r.look i).read i received = some t) (hkept : t.Kept) :
    (r.Relays (.examine connfd received) ⟨t, heard⟩ ↔ r.Harmless (.examine connfd received)) ∧
      (r.Harmless (.examine connfd received) → t.Idle) := by
  have hadmits : r.admits (.examine connfd received) = none := admits_of_ne hi (by rw [hb]; decide)
  have hsame := fun data => (still_receive (s := r.look i) (r.fds i).fd data).writeBuf
  cases received with
  | error again =>
    have hmessage : r.message (.examine connfd (.error again)) = none := by
      rw [message.eq_def, hi]
    cases again with
    | true =>
      cases ht
      exact iff_of_idle h (h.still ⟨rfl, fun _ => rfl, fun _ => rfl, hsame []⟩ hkept) hmessage hadmits
    | false =>
      have huser := h.isUser hi (.inr (.inl hb))
      exact iff_of_idle h (idle_of_close h huser (hsame []) (.inr ht) hkept) hmessage hadmits
  | bytes data =>
    by_cases hne : data = []
    · subst hne
      cases ht
      have hmessage : r.message (.examine connfd (.bytes [])) = none := by
        rw [message.eq_def, hi]
        exact if_neg fun hdata => hdata.2 rfl
      exact iff_of_idle h (h.still ⟨rfl, fun _ => rfl, fun _ => rfl, hsame []⟩ hkept) hmessage hadmits
    · rw [read] at ht
      dsimp only at ht
      rw [if_neg hne] at ht
      cases ht
      exact message_iff h hi hb hne hkept

/-- While nothing is relayed, exactly the steps that are harmless do what they are to do. -/
lemma Step.relays_iff (hs : Step r e r') (h : r.Idle) :
    (r.Relays e r' ↔ r.Harmless e) ∧ (r.Harmless e → r'.Idle) := by
  cases hs with
  | @step t hs =>
    have hkept : t.Kept := hs.kept h.kept
    cases hs with
    | @poll revents hi _ =>
      have hfds : ∀ j, ((r.poll revents).fds j).fd = (r.fds j).fd ∧
          ((r.poll revents).fds j).events = (r.fds j).events := by
        intro j
        rw [poll]
        dsimp only
        split
        next => exact ⟨rfl, rfl⟩
        next => exact ⟨rfl, rfl⟩
      have hstill : r.Still (r.poll revents) :=
        ⟨rfl, fun j => (hfds j).1, fun j => (hfds j).2, fun _ => rfl⟩
      refine iff_of_idle h (h.still hstill hkept) ?_ ?_
      · rw [message.eq_def, hi]
      · rw [admits.eq_def, hi]
    | @examine _ i connfd received hi _ ht =>
      rw [examine_eq] at ht
      cases hb : r.branch i with
      | accept =>
        rw [hb] at ht
        exact accept_iff h hi hb ht hkept
      | read =>
        rw [hb] at ht
        exact read_iff h hi hb ht hkept
      | hangUp =>
        rw [hb] at ht
        have huser := h.isUser hi (.inl hb)
        refine iff_of_idle h (idle_of_close h huser (fun _ => rfl) (.inl ht) hkept) ?_ ?_
        · exact message_of_ne hi (by rw [hb]; decide)
        · exact admits_of_ne hi (by rw [hb]; decide)
      | write =>
        rw [hb] at ht
        have huser := h.isUser hi (.inr (.inr hb))
        have hnone : ((r.look i).users ((r.look i).fds i).fd).writeBuf = none := h.writeBuf i huser
        rw [write] at ht
        dsimp only at ht
        rw [hnone] at ht
        cases ht
        refine iff_of_idle h (h.still ⟨rfl, fun _ => rfl, fun _ => rfl, fun _ => rfl⟩ hkept) ?_ ?_
        · exact message_of_ne hi (by rw [hb]; decide)
        · exact admits_of_ne hi (by rw [hb]; decide)
      | skip =>
        rw [hb] at ht
        cases ht
        refine iff_of_idle h (h.still ⟨rfl, fun _ => rfl, fun _ => rfl, fun _ => rfl⟩ hkept) ?_ ?_
        · exact message_of_ne hi (by rw [hb]; decide)
        · exact admits_of_ne hi (by rw [hb]; decide)

/-- In a run the messages are relayed if and only if there is never one to relay: a message is read
only of a user that is alone and has a descriptor that its event mask is equal to, and no user comes
for whom something is pending. -/
theorem run_relays_iff {listenfd : ℤ} {fds : ℕ → PollFd} {users : ℤ → ClientData} {es : List Event} :
    Trace (fun r e r' => Step r e r' ∧ r.Relays e r') (start listenfd fds users) es r ↔
      Trace (fun r e r' => Step r e r' ∧ r.Harmless e) (start listenfd fds users) es r :=
  Trace.guard_iff (I := fun r => r.Idle) (fun _ _ _ h hs => hs.relays_iff h) idle_start

/-- The users 7 and 8 are there, and 7 says something: nothing is pending for 8, and 7 and 8 are polled
for everything. -/
theorem run_notRelays : ∃ r r' : Relay,
    Trace Step (start 3 (fun _ => ⟨0, 0, 0⟩) fun _ => ⟨none, []⟩)
      [.poll fun _ => pollIn, .examine 7 (.bytes []), .examine (-1) (.bytes []),
        .poll fun j => if j = 0 then pollIn else 0, .examine 8 (.bytes []), .examine (-1) (.bytes []),
        .examine (-1) (.bytes []), .poll fun j => if j = 1 then pollIn else 0,
        .examine (-1) (.bytes [])] r ∧
      Step r (.examine (-1) (.bytes [0x68, 0x69])) r' ∧ r.table = [7, 8] ∧
      r.message (.examine (-1) (.bytes [0x68, 0x69])) = some (7, [0x68, 0x69]) ∧
      (r'.users 8).writeBuf = none ∧ (r'.fds 1).events = 0xffff ∧ (r'.fds 2).events = 0xffff ∧
      ¬ r.Relays (.examine (-1) (.bytes [0x68, 0x69])) r' := by
  have hrun : Trace Step (start 3 (fun _ => ⟨0, 0, 0⟩) fun _ => ⟨none, []⟩)
      [.poll fun _ => pollIn, .examine 7 (.bytes []), .examine (-1) (.bytes []),
        .poll fun j => if j = 0 then pollIn else 0, .examine 8 (.bytes []), .examine (-1) (.bytes []),
        .examine (-1) (.bytes []), .poll fun j => if j = 1 then pollIn else 0,
        .examine (-1) (.bytes [])] _ :=
    .cons (.step (.poll rfl (by decide))) (.cons (.step (.examine rfl (by decide) rfl))
      (.cons (.step (.examine rfl (by decide) rfl)) (.cons (.step (.poll rfl (by decide)))
      (.cons (.step (.examine rfl (by decide) rfl)) (.cons (.step (.examine rfl (by decide) rfl))
      (.cons (.step (.examine rfl (by decide) rfl)) (.cons (.step (.poll rfl (by decide)))
      (.cons (.step (.examine rfl (by decide) rfl)) (.nil _)))))))))
  refine ⟨_, _, hrun, .step (.examine rfl (by decide) rfl), by decide, by decide, rfl, by decide,
    by decide, ?_⟩
  intro hrelays
  cases hrelays.pending 7 [0x68, 0x69] (by decide) 2 ⟨by decide, by decide⟩ (by decide)

end Relay

end LinuxServer.ChatroomServer
