import LinuxServer.ChatroomServer.Basic

/-!
# Runs of the chat server

While the table is walked, what `poll` reported is divided: a part has been looked at, and the rest
stands in the table from the place of the walk on. That is so when an entry is passed, when one is
appended at the end, and when the last one is moved to the place of the walk.
-/

namespace LinuxServer.ChatroomServer

open Core

variable {s s' : ChatroomServer} {i : ℕ}

/-- What the walk has still to look at. -/
def remaining (s : ChatroomServer) : List (ℤ × BitVec 16) :=
  match s.i with
  | none => []
  | some i => segment s.key i (s.userCounter + 1 - i)

/-- What the server keeps. -/
structure Kept (s : ChatroomServer) : Prop where
  le : s.userCounter ≤ userLimit
  nodup : s.table.Nodup
  mem : ∀ fd, fd ∈ s.table ↔ fd ∈ s.opened
  listenfd : s.listenfd ∉ s.opened
  fd : (s.fds 0).fd = s.listenfd
  events : (s.fds 0).events = pollIn ||| pollErr
  revents : (s.fds 0).revents &&& ~~~(pollIn ||| pollErr ||| pollErr ||| pollHup ||| pollNval) = 0
  index : ∀ i, s.i = some i → i ≤ s.userCounter
  first : s.i = some 0 → s.examined = [] ∧ s.appended = []
  seen : (s.present.map Prod.fst ++ s.appended).Nodup
  walk : (s.examined ++ s.remaining).Perm (s.present ++ s.appended.map (·, 0))

lemma kept_start {listenfd : ℤ} {fds : ℕ → PollFd} {users : ℤ → ClientData} :
    (start listenfd fds users).Kept where
  le := Nat.zero_le _
  nodup := .nil
  mem _ := Iff.rfl
  listenfd := Finset.notMem_empty _
  fd := rfl
  events := rfl
  revents := BitVec.zero_and
  index _ hi := by cases hi
  first hi := by cases hi
  seen := .nil
  walk := .refl _

/-! ### The entry of the listening socket -/

/-- What is not requested of the listening socket is not reported. -/
lemma Kept.not_reports (h : s.Kept) {flag : BitVec 16}
    (hflag : ~~~(pollIn ||| pollErr ||| pollErr ||| pollHup ||| pollNval) &&& flag = flag) :
    ¬ s.Reports 0 flag := by
  intro hreports
  apply hreports
  rw [← hflag, ← BitVec.and_assoc, h.revents]
  exact BitVec.zero_and

/-- The entries of users are not the listening socket's. -/
lemma Kept.ne_listenfd (h : s.Kept) (hi : 1 ≤ i) (hle : i ≤ s.userCounter) :
    (s.fds i).fd ∈ s.opened ∧ (s.fds i).fd ≠ s.listenfd := by
  have hmem : (s.fds i).fd ∈ s.opened :=
    (h.mem _).mp (mem_segment.mpr ⟨i, ⟨hi, by omega⟩, rfl⟩)
  refine ⟨hmem, ?_⟩
  intro heq
  rw [heq] at hmem
  exact h.listenfd hmem

/-! ### The walk goes on -/

lemma remaining_next : (s.next i).remaining = segment s.key i (s.userCounter + 1 - i) := by
  rw [remaining, next]
  split
  next hnone =>
    have hle : s.userCounter + 1 - i = 0 := by
      split at hnone
      next => cases hnone
      next hlt => omega
    rw [hle]
    rfl
  next j hsome =>
    split at hsome
    next => cases hsome; rfl
    next => cases hsome

lemma index_next {j : ℕ} (h : (s.next i).i = some j) : j = i ∧ j ≤ s.userCounter := by
  rw [next] at h
  dsimp only at h
  split at h
  next hlt =>
    cases h
    exact ⟨rfl, Nat.le_of_lt_succ hlt⟩
  next => cases h

/-- An entry is passed: it is looked at, and nothing of what the walk is about is changed. -/
structure Passed (s : ChatroomServer) (i : ℕ) (t : ChatroomServer) : Prop where
  listenfd : t.listenfd = s.listenfd
  key : t.key = s.key
  events : (t.fds 0).events = (s.fds 0).events
  userCounter : t.userCounter = s.userCounter
  opened : t.opened = s.opened
  present : t.present = s.present
  appended : t.appended = s.appended
  examined : t.examined = s.examined ++ [s.key i]

lemma Passed.table {t : ChatroomServer} (h : Passed s i t) : t.table = s.table := by
  have hfd : (fun j => (t.fds j).fd) = fun j => (s.fds j).fd := by
    funext j
    exact congrArg Prod.fst (congrFun h.key j)
  rw [ChatroomServer.table, ChatroomServer.table, hfd, h.userCounter]

lemma Kept.remaining_eq (h : s.Kept) (hi : s.i = some i) :
    s.remaining = s.key i :: segment s.key (i + 1) (s.userCounter - i) := by
  have hle := h.index i hi
  have hlen : s.userCounter + 1 - i = s.userCounter - i + 1 := by omega
  rw [remaining, hi]
  dsimp only
  rw [hlen, segment_succ]

lemma Kept.pass {t : ChatroomServer} (h : s.Kept) (hi : s.i = some i) (ht : Passed s i t) :
    (t.next (i + 1)).Kept where
  le := ht.userCounter ▸ h.le
  nodup := show t.table.Nodup from ht.table ▸ h.nodup
  mem fd := by
    show fd ∈ t.table ↔ fd ∈ t.opened
    rw [ht.table, ht.opened]
    exact h.mem fd
  listenfd := by
    show t.listenfd ∉ t.opened
    rw [ht.listenfd, ht.opened]
    exact h.listenfd
  fd := by
    show (t.key 0).1 = t.listenfd
    rw [ht.key, ht.listenfd]
    exact h.fd
  events := ht.events.trans h.events
  revents := by
    show (t.key 0).2 &&& _ = _
    rw [ht.key]
    exact h.revents
  index j hj := (index_next hj).2
  first hzero := by
    have hne := (index_next hzero).1
    omega
  seen := by
    show (t.present.map Prod.fst ++ t.appended).Nodup
    rw [ht.present, ht.appended]
    exact h.seen
  walk := by
    show (t.examined ++ (t.next (i + 1)).remaining).Perm (t.present ++ t.appended.map (·, 0))
    have hwalk := h.walk
    rw [h.remaining_eq hi] at hwalk
    have hlen : s.userCounter + 1 - (i + 1) = s.userCounter - i := by omega
    rw [remaining_next, ht.key, ht.userCounter, ht.examined, ht.present, ht.appended, hlen,
      List.append_assoc]
    exact hwalk

/-! ### A user is removed -/

/-- The last entry is moved to the entry `i`, which is looked at. -/
structure Removed (s : ChatroomServer) (i : ℕ) (t : ChatroomServer) : Prop where
  listenfd : t.listenfd = s.listenfd
  fds : t.fds = Function.update s.fds i (s.fds (t.userCounter + 1))
  userCounter : s.userCounter = t.userCounter + 1
  opened : t.opened = s.opened.erase (s.fds i).fd
  present : t.present = s.present
  appended : t.appended = s.appended
  examined : t.examined = s.examined ++ [s.key i]

lemma Removed.key {t : ChatroomServer} (h : Removed s i t) :
    t.key = Function.update s.key i (s.key (t.userCounter + 1)) := by
  funext j
  rw [ChatroomServer.key, h.fds, Function.update_apply, Function.update_apply]
  split <;> rfl

lemma Removed.table {t : ChatroomServer} (h : Removed s i t) (hpos : 1 ≤ i)
    (hle : i ≤ s.userCounter) : s.table.Perm ((s.fds i).fd :: t.table) := by
  have hfd : (fun j => (t.fds j).fd) =
      Function.update (fun j => (s.fds j).fd) i (s.fds (1 + t.userCounter)).fd := by
    funext j
    rw [h.fds, Nat.add_comm 1, Function.update_apply, Function.update_apply]
    split <;> rfl
  rw [ChatroomServer.table, ChatroomServer.table, h.userCounter, hfd]
  exact segment_remove hpos (by rw [Nat.add_comm, ← h.userCounter]; exact hle)

lemma Removed.fds_zero {t : ChatroomServer} (h : Removed s i t) (hpos : 1 ≤ i) : t.fds 0 = s.fds 0 := by
  rw [h.fds]
  exact Function.update_of_ne (by omega) _ _

lemma Kept.remove {t : ChatroomServer} (h : s.Kept) (hi : s.i = some i) (hpos : 1 ≤ i)
    (ht : Removed s i t) : (t.next i).Kept := by
  have hle := h.index i hi
  have huser := ht.userCounter
  have hperm := ht.table hpos hle
  have hnodup := hperm.nodup_iff.mp h.nodup
  rw [List.nodup_cons] at hnodup
  refine ⟨?_, hnodup.2, ?_, ?_, ?_, ?_, ?_, ?_, ?_, ?_, ?_⟩
  · show t.userCounter ≤ userLimit
    have hlimit := h.le
    omega
  · intro fd
    show fd ∈ t.table ↔ fd ∈ t.opened
    rw [ht.opened, Finset.mem_erase, ← h.mem, hperm.mem_iff, List.mem_cons]
    constructor
    · intro hfd
      refine ⟨?_, .inr hfd⟩
      rintro rfl
      exact hnodup.1 hfd
    · rintro ⟨hne, heq | hfd⟩
      · exact absurd heq hne
      · exact hfd
  · show t.listenfd ∉ t.opened
    rw [ht.listenfd, ht.opened]
    intro hmem
    exact h.listenfd (Finset.mem_of_mem_erase hmem)
  · show (t.fds 0).fd = t.listenfd
    rw [ht.fds_zero hpos, ht.listenfd]
    exact h.fd
  · show (t.fds 0).events = _
    rw [ht.fds_zero hpos]
    exact h.events
  · show (t.fds 0).revents &&& _ = _
    rw [ht.fds_zero hpos]
    exact h.revents
  · exact fun j hj => (index_next hj).2
  · intro hzero
    have hne := (index_next hzero).1
    omega
  · show (t.present.map Prod.fst ++ t.appended).Nodup
    rw [ht.present, ht.appended]
    exact h.seen
  · show (t.examined ++ (t.next i).remaining).Perm (t.present ++ t.appended.map (·, 0))
    -- the walk comes to the entry that was the last one
    have hrest : s.remaining.Perm (s.key i :: (t.next i).remaining) := by
      obtain ⟨m, hm⟩ := Nat.exists_eq_add_of_le (show i ≤ t.userCounter + 1 by omega)
      have hlen : s.userCounter + 1 - i = m + 1 := by omega
      have hlen' : t.userCounter + 1 - i = m := by omega
      rw [remaining, hi]
      dsimp only
      rw [remaining_next, ht.key, hlen, hlen', hm]
      exact segment_remove le_rfl (Nat.le_add_right i m)
    rw [ht.examined, ht.present, ht.appended, List.append_assoc]
    exact (hrest.symm.append_left s.examined).trans h.walk

/-! ### A user is appended -/

/-- At the beginning of the walk there is in the table what was there at the call of `poll`. -/
lemma Kept.present_perm (h : s.Kept) (hi : s.i = some 0) :
    (s.key 0 :: segment s.key 1 s.userCounter).Perm s.present := by
  have hwalk := h.walk
  rw [(h.first hi).1, (h.first hi).2, h.remaining_eq hi] at hwalk
  rw [List.nil_append, List.map_nil, List.append_nil, Nat.sub_zero] at hwalk
  exact hwalk

lemma Kept.mem_present (h : s.Kept) (hi : s.i = some 0) (fd : ℤ) :
    fd ∈ s.present.map Prod.fst ↔ fd = s.listenfd ∨ fd ∈ s.opened := by
  have hmap := (h.present_perm hi).map Prod.fst
  rw [← hmap.mem_iff, List.map_cons, map_segment, List.mem_cons, ← h.mem, ← h.fd]
  rfl

/-- `connfd` is written behind the last entry, while the entry 0 is looked at. -/
structure Appended (s : ChatroomServer) (connfd : ℤ) (t : ChatroomServer) : Prop where
  listenfd : t.listenfd = s.listenfd
  fds : t.fds = Function.update s.fds (s.userCounter + 1) ⟨connfd, pollIn ||| pollRdHup ||| pollErr, 0⟩
  userCounter : t.userCounter = s.userCounter + 1
  opened : t.opened = insert connfd s.opened
  present : t.present = s.present
  appended : t.appended = s.appended ++ [connfd]
  examined : t.examined = s.examined ++ [s.key 0]

lemma Appended.key {connfd : ℤ} {t : ChatroomServer} (h : Appended s connfd t) :
    t.key = Function.update s.key (s.userCounter + 1) (connfd, 0) := by
  funext j
  rw [ChatroomServer.key, h.fds, Function.update_apply, Function.update_apply]
  split <;> rfl

lemma Appended.segment_key {connfd : ℤ} {t : ChatroomServer} (h : Appended s connfd t) :
    segment t.key 1 t.userCounter = segment s.key 1 s.userCounter ++ [(connfd, 0)] := by
  have hlast : 1 + s.userCounter = s.userCounter + 1 := Nat.add_comm _ _
  rw [h.key, h.userCounter, segment_snoc, segment_update (Or.inr hlast.le), hlast,
    Function.update_self]

lemma table_eq (s : ChatroomServer) : s.table = (segment s.key 1 s.userCounter).map Prod.fst := by
  rw [map_segment]
  rfl

lemma Appended.table {connfd : ℤ} {t : ChatroomServer} (h : Appended s connfd t) :
    t.table = s.table ++ [connfd] := by
  rw [table_eq, table_eq, h.segment_key, List.map_append]
  rfl

lemma Appended.fds_zero {connfd : ℤ} {t : ChatroomServer} (h : Appended s connfd t) :
    t.fds 0 = s.fds 0 := by
  rw [h.fds]
  exact Function.update_of_ne (by omega) _ _

/-- `accept` has given out `connfd`, and there is room in the table. -/
lemma Kept.append {connfd : ℤ} {t : ChatroomServer} (h : s.Kept) (hi : s.i = some 0)
    (hroom : s.userCounter < userLimit) (hlisten : connfd ≠ s.listenfd) (hnew : connfd ∉ s.opened)
    (ht : Appended s connfd t) : (t.next 1).Kept := by
  obtain ⟨hexamined, happended⟩ := h.first hi
  have hnew' : connfd ∉ s.table := fun hmem => hnew ((h.mem connfd).mp hmem)
  refine ⟨?_, ?_, ?_, ?_, ?_, ?_, ?_, ?_, ?_, ?_, ?_⟩
  · show t.userCounter ≤ userLimit
    rw [ht.userCounter]
    exact hroom
  · show t.table.Nodup
    rw [ht.table]
    exact h.nodup.append (List.nodup_singleton _) (List.disjoint_singleton.mpr hnew')
  · intro fd
    show fd ∈ t.table ↔ fd ∈ t.opened
    rw [ht.table, ht.opened, List.mem_append, List.mem_singleton, Finset.mem_insert, h.mem]
    exact or_comm
  · show t.listenfd ∉ t.opened
    rw [ht.listenfd, ht.opened, Finset.mem_insert]
    rintro (heq | hmem)
    · exact hlisten heq.symm
    · exact h.listenfd hmem
  · show (t.fds 0).fd = t.listenfd
    rw [ht.fds_zero, ht.listenfd]
    exact h.fd
  · show (t.fds 0).events = _
    rw [ht.fds_zero]
    exact h.events
  · show (t.fds 0).revents &&& _ = _
    rw [ht.fds_zero]
    exact h.revents
  · exact fun j hj => (index_next hj).2
  · intro hzero
    have hne := (index_next hzero).1
    omega
  · show (t.present.map Prod.fst ++ t.appended).Nodup
    have hseen := h.seen
    rw [happended, List.append_nil] at hseen
    rw [ht.present, ht.appended, happended, List.nil_append]
    refine hseen.append (List.nodup_singleton _) (List.disjoint_singleton.mpr ?_)
    rw [h.mem_present hi]
    rintro (heq | hmem)
    · exact hlisten heq
    · exact hnew hmem
  · show (t.examined ++ (t.next 1).remaining).Perm (t.present ++ t.appended.map (·, 0))
    rw [remaining_next, Nat.add_sub_cancel, ht.segment_key, ht.examined, ht.present, ht.appended,
      hexamined, happended]
    exact (h.present_perm hi).append_right [(connfd, 0)]

/-! ### The body of the walk -/

/-- The entry `i` is looked at. -/
abbrev look (s : ChatroomServer) (i : ℕ) : ChatroomServer := { s with examined := s.examined ++ [s.key i] }

lemma passed_look : Passed s i (s.look i) := ⟨rfl, rfl, rfl, rfl, rfl, rfl, rfl, rfl⟩

lemma Passed.receive {t : ChatroomServer} (h : Passed s i t) (connfd : ℤ) (data : List UInt8) :
    Passed s i (t.receive connfd data) :=
  ⟨h.listenfd, h.key, h.events, h.userCounter, h.opened, h.present, h.appended, h.examined⟩

lemma Passed.notify {t : ChatroomServer} (h : Passed s i t) (connfd : ℤ) :
    Passed s i (t.notify connfd) := by
  refine ⟨h.listenfd, ?_, ?_, h.userCounter, h.opened, h.present, h.appended, h.examined⟩
  · rw [← h.key]
    funext j
    rw [ChatroomServer.key, ChatroomServer.notify]
    dsimp only
    split <;> rfl
  · rw [← h.events]
    rfl

lemma Kept.write (h : s.Kept) (hi : s.i = some i) (hpos : 1 ≤ i) : ((s.look i).write i).Kept := by
  rw [ChatroomServer.write]
  dsimp only
  split
  next => exact h.pass hi passed_look
  next =>
    refine h.pass hi ⟨rfl, ?_, ?_, rfl, rfl, rfl, rfl, rfl⟩
    · funext j
      rw [ChatroomServer.key, ChatroomServer.key]
      dsimp only
      by_cases hj : j = i
      · subst hj
        rw [Function.update_self]
        rfl
      · rw [Function.update_of_ne hj]
        rfl
    · dsimp only
      rw [Function.update_of_ne (by omega)]

lemma moveLast_eq {n : ℕ} (h : s.userCounter = n + 1) :
    s.moveLast i = some ({ s with
      fds := Function.update s.fds i (s.fds (n + 1))
      userCounter := n }.next i) := by
  rw [moveLast, h]

/-- Both ways to close the connection of a user come to the same. -/
lemma close_eq {n : ℕ} (hmem : (s.fds i).fd ∈ s.opened) (hn : s.userCounter = n + 1) :
    ∃ t : ChatroomServer, t = { s with
        users := (s.copyLast i).users
        opened := s.opened.erase (s.fds i).fd
        fds := Function.update s.fds i (s.fds (n + 1))
        userCounter := n } ∧
      s.hangUp i = some (t.next i) ∧ s.readFails i = some (t.next i) := by
  refine ⟨_, rfl, ?_, ?_⟩
  · rw [hangUp, ChatroomServer.close, if_pos (show (s.fds i).fd ∈ (s.copyLast i).opened from hmem)]
    exact moveLast_eq hn
  · rw [readFails, ChatroomServer.close, if_pos hmem]
    exact moveLast_eq hn

lemma Kept.close (h : s.Kept) (hi : s.i = some i) (hpos : 1 ≤ i) (users : ℤ → ClientData) :
    ∃ s', s'.Kept ∧ hangUp { s.look i with users := users } i = some s' ∧
      readFails { s.look i with users := users } i = some s' := by
  have hle := h.index i hi
  have hmem := (h.ne_listenfd hpos hle).1
  obtain ⟨n, hn⟩ : ∃ n, s.userCounter = n + 1 := Nat.exists_eq_succ_of_ne_zero (by omega)
  obtain ⟨t, ht, hhangUp, hread⟩ := close_eq (s := { s.look i with users := users }) hmem hn
  refine ⟨t.next i, h.remove hi hpos ?_, hhangUp, hread⟩
  rw [ht]
  exact ⟨rfl, rfl, hn, rfl, rfl, rfl, rfl⟩

lemma Kept.accept {connfd : ℤ} (h : s.Kept) (hi : s.i = some 0) (hfresh : s.Fresh connfd) :
    ∃ s', (s.look 0).accept 0 connfd = some s' ∧ s'.Kept := by
  rw [ChatroomServer.accept]
  split
  next => exact ⟨_, rfl, h.pass hi passed_look⟩
  next hpos =>
    obtain ⟨hlisten, hnew⟩ := hfresh (not_lt.mp hpos)
    dsimp only
    split
    next hfull =>
      rw [ChatroomServer.close, if_pos (Finset.mem_insert_self connfd s.opened)]
      refine ⟨_, rfl, h.pass hi ⟨rfl, rfl, rfl, rfl, ?_, rfl, rfl, rfl⟩⟩
      exact Finset.erase_insert hnew
    next hroom =>
      refine ⟨_, rfl, h.append hi (not_le.mp hroom) hlisten hnew ?_⟩
      exact ⟨rfl, rfl, rfl, rfl, rfl, rfl, rfl⟩

lemma Kept.read {received : Recv} (h : s.Kept) (hi : s.i = some i) (hpos : 1 ≤ i) :
    ∃ s', (s.look i).read i received = some s' ∧ s'.Kept := by
  cases received with
  | error again =>
    rw [ChatroomServer.read]
    dsimp only
    split
    next => exact ⟨_, rfl, h.pass hi (passed_look.receive _ _)⟩
    next =>
      obtain ⟨s', hkept, -, hread⟩ := h.close hi hpos ((s.look i).receive (s.fds i).fd []).users
      exact ⟨s', hread, hkept⟩
  | bytes data =>
    refine ⟨_, rfl, h.pass hi ?_⟩
    split
    next => exact passed_look.receive _ _
    next => exact (passed_look.receive _ _).notify _

/-- The body of the walk is defined, and keeps what is to be kept. -/
lemma Kept.examine {connfd : ℤ} {received : Recv} (h : s.Kept) (hi : s.i = some i)
    (hfresh : s.Fresh connfd) : ∃ s', s.examine i connfd received = some s' ∧ s'.Kept := by
  have hle := h.index i hi
  rw [ChatroomServer.examine]
  dsimp only
  split
  next hlisten =>
    obtain rfl : i = 0 := by
      by_contra hne
      exact (h.ne_listenfd (Nat.one_le_iff_ne_zero.mpr hne) hle).2 hlisten.1
    exact h.accept hi hfresh
  next hlisten =>
    -- nothing else is reported of the listening socket but an error
    have hzero : ∀ flag, (s.look i).Reports i flag →
        ~~~(pollIn ||| pollErr ||| pollErr ||| pollHup ||| pollNval) &&& flag = flag → 1 ≤ i := by
      intro flag hreports hflag
      rw [Nat.one_le_iff_ne_zero]
      rintro rfl
      exact h.not_reports hflag hreports
    split
    next => exact ⟨_, rfl, h.pass hi passed_look⟩
    split
    next hup =>
      obtain ⟨s', hkept, hhangUp, -⟩ := h.close hi (hzero _ hup (by decide)) s.users
      exact ⟨s', hhangUp, hkept⟩
    split
    next hin =>
      apply h.read hi
      rw [Nat.one_le_iff_ne_zero]
      rintro rfl
      exact hlisten ⟨h.fd, hin⟩
    split
    next hout => exact ⟨_, rfl, h.write hi (hzero _ hout (by decide))⟩
    next => exact ⟨_, rfl, h.pass hi passed_look⟩

/-! ### Runs -/

lemma Kept.poll {revents : ℕ → BitVec 16} (h : s.Kept) (hrevents : s.Reportable revents) : (s.poll revents).Kept := by
  have hfd : (fun j => ((s.poll revents).fds j).fd) = fun j => (s.fds j).fd := by
    funext j
    rw [ChatroomServer.poll]
    dsimp only
    split <;> rfl
  have htable : (s.poll revents).table = s.table := by
    rw [ChatroomServer.table, hfd]
    rfl
  refine ⟨h.le, htable ▸ h.nodup, ?_, h.listenfd, h.fd, h.events, ?_, ?_, fun _ => ⟨rfl, rfl⟩, ?_, ?_⟩
  · rw [htable]
    exact h.mem
  · rw [← h.events]
    exact hrevents
  · intro j hj
    cases hj
    exact Nat.zero_le _
  · have hpresent : (s.poll revents).present.map Prod.fst = s.listenfd :: s.table := by
      rw [← h.fd, ← htable]
      exact map_segment Prod.fst
    show ((s.poll revents).present.map Prod.fst ++ []).Nodup
    rw [List.append_nil, hpresent, List.nodup_cons]
    exact ⟨fun hmem => h.listenfd ((h.mem _).mp hmem), h.nodup⟩
  · show (segment (s.poll revents).key 0 (s.userCounter + 1)).Perm ((s.poll revents).present ++ [])
    rw [List.append_nil]
    exact .refl _

lemma Step.kept {e : Event} (hs : Step s e s') (h : s.Kept) : s'.Kept := by
  cases hs with
  | poll _ hrevents => exact h.poll hrevents
  | examine hi hfresh hexamine =>
    obtain ⟨s'', heq, hkept⟩ := h.examine hi hfresh
    obtain rfl := Option.some.inj (hexamine.symm.trans heq)
    exact hkept

/-- At the end of every walk the table lists what is open, and everything that `poll` reported was
looked at once, and a new user with nothing reported of it. No step of a walk fails. -/
theorem run_rounds {listenfd : ℤ} {fds : ℕ → PollFd} {users : ℤ → ClientData} {es : List Event}
    (hrun : Trace Step (start listenfd fds users) es s) :
    (s.userCounter ≤ userLimit ∧
      (s.i = none → s.table.Nodup ∧ (∀ fd, fd ∈ s.table ↔ fd ∈ s.opened) ∧
        s.examined.Perm (s.present ++ s.appended.map (·, 0)) ∧ (s.examined.map Prod.fst).Nodup)) ∧
      ∀ i connfd received, s.i = some i → s.Fresh connfd →
        (s.examine i connfd received).isSome := by
  have h : s.Kept := hrun.invariant (fun _ _ _ hk hs => hs.kept hk) kept_start
  refine ⟨⟨h.le, ?_⟩, ?_⟩
  · intro hi
    have hperm : s.examined.Perm (s.present ++ s.appended.map (·, 0)) := by
      have hwalk := h.walk
      rw [remaining, hi, List.append_nil] at hwalk
      exact hwalk
    refine ⟨h.nodup, h.mem, hperm, ?_⟩
    have happended : (s.appended.map fun fd => (fd, (0 : BitVec 16))).map Prod.fst = s.appended := by
      rw [List.map_map]
      exact List.map_id _
    rw [(hperm.map Prod.fst).nodup_iff, List.map_append, happended]
    exact h.seen
  · intro i connfd received hi hfresh
    have hexamine : ∃ s', s.examine i connfd received = some s' ∧ s'.Kept := h.examine hi hfresh
    obtain ⟨s', heq, -⟩ := hexamine
    rw [heq]
    rfl

/-- The user 7 hangs up while the table lists 7 and 8: the walk comes to 8 at the place of 7. -/
theorem run_rounds_hangUp : ∃ s : ChatroomServer, s.i = none ∧ s.table = [8] ∧ s.opened = {8} ∧
    s.examined = [(3, 0), (7, pollRdHup), (8, pollIn)] ∧ s.userCounter ≤ userLimit ∧
      (s.examined.map Prod.fst).Nodup := by
  have hrun : Trace Step (start 3 (fun _ => ⟨0, 0, 0⟩) fun _ => ⟨none, []⟩)
      [.poll fun _ => pollIn, .examine 7 (.bytes []), .examine (-1) (.bytes []),
        .poll fun j => if j = 0 then pollIn else 0, .examine 8 (.bytes []), .examine (-1) (.bytes []),
        .examine (-1) (.bytes []),
        .poll fun j => if j = 0 then 0 else if j = 1 then pollRdHup else pollIn,
        .examine (-1) (.bytes []), .examine (-1) (.bytes []), .examine (-1) (.bytes [0x68, 0x69])] _ :=
    .cons (.poll rfl (by decide)) (.cons (.examine rfl (by decide) rfl)
      (.cons (.examine rfl (by decide) rfl) (.cons (.poll rfl (by decide))
      (.cons (.examine rfl (by decide) rfl) (.cons (.examine rfl (by decide) rfl)
      (.cons (.examine rfl (by decide) rfl) (.cons (.poll rfl (by decide))
      (.cons (.examine rfl (by decide) rfl) (.cons (.examine rfl (by decide) rfl)
      (.cons (.examine rfl (by decide) rfl) (.nil _)))))))))))
  exact ⟨_, rfl, by decide, by decide, by decide, (run_rounds hrun).1.1,
    ((run_rounds hrun).1.2 rfl).2.2.2⟩

end LinuxServer.ChatroomServer
