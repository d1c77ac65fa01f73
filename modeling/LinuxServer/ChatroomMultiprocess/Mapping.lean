import LinuxServer.ChatroomMultiprocess.Messages
import LinuxServer.ChatroomMultiprocess.Segments

/-!
# The mapping of the multi-process chat server

`share_mem` has room for the segments of `USER_LIMIT` users. `users` has one entry more, and so many
users are let in. The index of a user is `user_count` when its child is forked; from there it goes
through the pipes of its child, of the parent and of the others.
-/

namespace LinuxServer.ChatroomMultiprocess.Messages

open Core

/-- The size that `ftruncate` and `mmap` give to `share_mem`. -/
def mappedSize : ℕ := userLimit * bufferSize

/-- `share_mem + idx * BUFFER_SIZE` to `share_mem + (idx + 1) * BUFFER_SIZE - 1` were mapped. -/
def Mapped (idx : ℕ) : Prop := (idx + 1) * bufferSize ≤ mappedSize

/-- A running child has a segment that was mapped, and so has each index that the parent sent to it. -/
structure InMapping (s : Messages) : Prop where
  forked : ∀ c, s.running c = true → Mapped (s.child c).idx
  received : ∀ c, s.running c = true → ∀ a ∈ s.incoming c, Mapped a.idx

/-- No user is admitted when there are `USER_LIMIT` of them. -/
def BelowLimit (s : Messages) : Event → Prop
  | .tables (.accept _ _ _ (some _)) => s.userCount ≠ userLimit
  | _ => True

/-- Every index in the pipe was mapped. -/
def AllMapped (d : Descriptor Announcement) : Prop := ∀ a ∈ d.items, Mapped a.idx

lemma mapped_iff {idx : ℕ} : Mapped idx ↔ idx < userLimit := by
  rw [Mapped, mappedSize, Nat.mul_le_mul_right_iff (by decide), Nat.succ_le_iff]

lemma allMapped_update {f : ℕ → Descriptor Announcement} {d : Descriptor Announcement} {c : ℕ}
    (h : ∀ c', AllMapped (f c')) (hd : AllMapped d) (c' : ℕ) : AllMapped (Function.update f c d c') := by
  rw [Function.update_apply]
  split
  next => exact hd
  next => exact h c'

/-! ### What the indices keep -/

variable {s s' : Messages} {c : ℕ}

/-- Every index that the server holds somewhere. -/
structure IdxMapped (s : Messages) : Prop where
  child : ∀ c, Mapped (s.child c).idx
  toTell : ∀ c, ∀ a ∈ (s.place c).toTell, Mapped a.idx
  toEmit : ∀ c, ∀ a ∈ (s.place c).toEmit, Mapped a.idx
  up : ∀ c, AllMapped (s.up c)
  forward : ∀ x ∈ s.forward, Mapped x.2.idx
  down : ∀ c, AllMapped (s.down c)

lemma IdxMapped.inMapping (h : s.IdxMapped) : s.InMapping where
  forked c _ := h.child c
  received c _ := List.forall_mem_append.mpr ⟨h.toEmit c, h.down c⟩

lemma idxMapped_start {users : ℕ → ClientData} {fds : Finset ℕ} {shareMem : ℕ → Bytes} :
    (start users fds shareMem).IdxMapped where
  child _ := mapped_iff.mpr (Nat.zero_lt_succ _)
  toTell _ := List.forall_mem_nil _
  toEmit _ := List.forall_mem_nil _
  up _ := List.forall_mem_nil _
  forward := List.forall_mem_nil _
  down _ := List.forall_mem_nil _

lemma IdxMapped.write {segment : Bytes} (h : s.IdxMapped) : (s.write c segment).IdxMapped :=
  ⟨h.child, h.toTell, h.toEmit, h.up, h.forward, h.down⟩

lemma IdxMapped.setPlace {p : ChildAt} (h : s.IdxMapped) (htell : ∀ a ∈ p.toTell, Mapped a.idx)
    (hemit : ∀ a ∈ p.toEmit, Mapped a.idx) : (s.setPlace c p).IdxMapped := by
  have hplace : ∀ c', (s.setPlace c p).place c' = if c' = c then p else s.place c' :=
    fun c' => Function.update_apply _ _ _ _
  refine { h with toTell := ?_, toEmit := ?_ }
  · intro c'
    rw [hplace]
    split
    next => exact htell
    next => exact h.toTell c'
  · intro c'
    rw [hplace]
    split
    next => exact hemit
    next => exact h.toEmit c'

lemma IdxMapped.loop (h : s.IdxMapped) : (s.setPlace c .loop).IdxMapped :=
  h.setPlace (List.forall_mem_nil _) (List.forall_mem_nil _)

lemma IdxMapped.childClear (h : s.IdxMapped) : (s.childClear c).IdxMapped :=
  h.write.setPlace (List.forall_mem_nil _) (List.forall_mem_nil _)

/-- The index that a child is to announce is the one that it was forked with. -/
lemma IdxMapped.childRecv {result : Recv} (h : s.IdxMapped) : (s.childRecv c result).IdxMapped := by
  cases result with
  | data bytes =>
    have hidx : ∀ a ∈ (ChildAt.tell ⟨(s.child c).idx, s.nextMessage c bytes⟩).toTell,
        Mapped a.idx := by
      intro a ha
      obtain rfl := List.mem_singleton.mp ha
      exact h.child c
    exact { (h.write (c := c)).setPlace (c := c) hidx (List.forall_mem_nil _) with }
  | again => exact h.loop
  | stop => exact h.loop

lemma IdxMapped.childTell {a : Announcement} {sent : Bool} (h : s.IdxMapped)
    (hplace : s.place c = .tell a) : (s.childTell c a sent).IdxMapped := by
  have ha : Mapped a.idx := by
    apply h.toTell c
    rw [hplace]
    exact List.mem_singleton_self a
  rw [Messages.childTell]
  split
  next =>
    refine { h.loop (c := c) with up := ?_ }
    apply allMapped_update h.up
    exact Descriptor.forall_arrive (h.up c) ha
  next => exact h.loop

lemma IdxMapped.leave (h : s.IdxMapped) : (s.leave c).IdxMapped := by
  refine { h with up := ?_ }
  exact allMapped_update h.up (h.up c)

lemma IdxMapped.childWake (h : s.IdxMapped) : (s.childWake c).IdxMapped := by
  refine { h with down := ?_ }
  exact allMapped_update h.down (h.down c)

lemma IdxMapped.childTake (h : s.IdxMapped) : (s.childTake c).IdxMapped := by
  have hread : ∀ p : ChildAt, p = ((s.down c).items.head?.map ChildAt.emit).getD .loop →
      (∀ a ∈ p.toTell, Mapped a.idx) ∧ ∀ a ∈ p.toEmit, Mapped a.idx := by
    rintro p rfl
    cases hhead : (s.down c).items.head? with
    | none => exact ⟨List.forall_mem_nil _, List.forall_mem_nil _⟩
    | some a =>
      refine ⟨List.forall_mem_nil _, ?_⟩
      intro a' ha'
      obtain rfl : a' = a := List.mem_singleton.mp ha'
      exact h.down c a' (List.mem_of_head? hhead)
  obtain ⟨htell, hemit⟩ := hread _ rfl
  refine { h.setPlace (c := c) htell hemit with down := ?_ }
  apply allMapped_update h.down
  exact Descriptor.forall_read (h.down c)

lemma IdxMapped.childEmit {a : Announcement} {n : ℕ} (h : s.IdxMapped) :
    (s.childEmit c a n).IdxMapped := { h.loop (c := c) with }

/-- The parent sends around the index that it read. -/
lemma IdxMapped.parentRead {fd : ℕ} (h : s.IdxMapped) : (s.parentRead fd c).IdxMapped := by
  refine { h with up := ?_, forward := ?_ }
  · apply allMapped_update h.up
    exact Descriptor.forall_read (h.up c)
  · intro x hx
    rw [Messages.parentRead] at hx
    dsimp only at hx
    cases hitems : (s.up c).items with
    | nil =>
      rw [hitems] at hx
      cases hx
    | cons a rest =>
      rw [hitems] at hx
      obtain ⟨fd', -, rfl⟩ := List.mem_map.mp hx
      apply h.up c
      rw [hitems]
      exact List.mem_cons_self

lemma IdxMapped.hand {a : Announcement} (h : s.IdxMapped) (ha : Mapped a.idx) : (s.hand c a).IdxMapped := by
  refine { h with down := ?_ }
  apply allMapped_update h.down
  exact Descriptor.forall_arrive (h.down c) ha

lemma IdxMapped.parentSend {fd : ℕ} {a : Announcement} {rest : List (ℕ × Announcement)} {sent : Bool}
    (h : s.IdxMapped) (hforward : s.forward = (fd, a) :: rest) :
    (s.parentSend fd a rest sent).IdxMapped := by
  have ha : Mapped a.idx := by
    apply h.forward (fd, a)
    rw [hforward]
    exact List.mem_cons_self
  have hrest : ∀ x ∈ rest, Mapped x.2.idx := by
    intro x hx
    apply h.forward
    rw [hforward]
    exact List.mem_cons_of_mem _ hx
  rw [Messages.parentSend]
  split
  next =>
    split
    next => exact { h.hand ha with forward := hrest }
    next => exact { h with forward := hrest }
  next => exact { h with forward := hrest }

/-! ### What the tables do -/

/-- An index is made at an admission, and then only. -/
lemma idx_tables {e : ChatroomMultiprocess.Event} {t t' : ChatroomMultiprocess}
    (hs : ChatroomMultiprocess.Step t e t') :
    ((∀ c, (t'.child c).idx = (t.child c).idx) ∧
      ∀ connfd p₀ p₁ pid, e = .accept connfd p₀ p₁ (some pid) → userLimit < t.userCount) ∨
    ∃ connfd p₀ p₁ pid, e = .accept connfd p₀ p₁ (some pid) ∧ t.userCount ≤ userLimit ∧
      t'.born = t.born + 1 ∧ (t'.child t.born).idx = t.userCount ∧
      ∀ c, c ≠ t.born → (t'.child c).idx = (t.child c).idx := by
  cases hs with
  | @accept _ connfd p₀ p₁ fork hfresh haccept =>
    rcases accept_cases haccept with ⟨hfull, rfl⟩ | ⟨-, rfl, rfl⟩ | ⟨hroom, pid, rfl, -, rfl⟩
    · left
      exact ⟨fun _ => rfl, fun _ _ _ _ _ => hfull⟩
    · left
      refine ⟨fun _ => rfl, ?_⟩
      intro connfd' p₀' p₁' pid heq
      cases heq
    · right
      refine ⟨connfd, p₀, p₁, pid, rfl, hroom, rfl, ?_, ?_⟩
      · exact congrArg Child.idx (child_enroll_self (s := t.prepare connfd p₀ p₁))
      · intro c hne
        exact congrArg Child.idx (child_enroll_of_ne (s := t.prepare connfd p₀ p₁) hne)
  | exit _ hexit =>
    left
    constructor
    · intro c'
      exact idx_handleExit hexit
    · intro connfd p₀ p₁ pid heq
      cases heq
  | sigchldDone =>
    left
    refine ⟨fun _ => rfl, ?_⟩
    intro connfd p₀ p₁ pid heq
    cases heq
  | sigterm =>
    left
    constructor
    · intro c
      rw [ChatroomMultiprocess.sigterm]
      split
      next => rfl
      next => rfl
    · intro connfd p₀ p₁ pid heq
      cases heq

lemma IdxMapped.withTables {t : ChatroomMultiprocess} (h : s.IdxMapped)
    (hchild : ∀ c, Mapped (t.child c).idx) : (s.withTables t).IdxMapped :=
  ⟨hchild, h.toTell, h.toEmit, h.up, h.forward, h.down⟩

/-- Exactly the steps of the tables that admit no user at the limit keep the children in the mapping. -/
lemma IdxMapped.tables {e : ChatroomMultiprocess.Event} {t : ChatroomMultiprocess} (h : s.IdxMapped)
    (hs : ChatroomMultiprocess.Step s.toChatroomMultiprocess e t) :
    ((s.withTables t).InMapping ↔ s.BelowLimit (.tables e)) ∧
      (s.BelowLimit (.tables e) → (s.withTables t).IdxMapped) := by
  rcases idx_tables hs with ⟨hidx, hrefused⟩ | ⟨connfd, p₀, p₁, pid, rfl, hroom, hborn, hnew, hold⟩
  · have hmapped : (s.withTables t).IdxMapped := by
      apply h.withTables
      intro c
      rw [hidx c]
      exact h.child c
    refine ⟨iff_of_true hmapped.inMapping ?_, fun _ => hmapped⟩
    cases e with
    | accept connfd p₀ p₁ fork =>
      cases fork with
      | none => trivial
      | some pid => exact (hrefused connfd p₀ p₁ pid rfl).ne'
    | exit => trivial
    | sigchldDone => trivial
    | sigterm => trivial
  · have hkeep : s.userCount ≠ userLimit → (s.withTables t).IdxMapped := by
      intro hne
      apply h.withTables
      intro c
      by_cases hc : c = s.born
      · rw [hc, hnew, mapped_iff]
        exact lt_of_le_of_ne hroom hne
      · rw [hold c hc]
        exact h.child c
    refine ⟨⟨?_, fun hne => (hkeep hne).inMapping⟩, hkeep⟩
    intro hin heq
    have hrunning : (s.withTables t).running s.born = true := if_pos ⟨le_rfl, hborn ▸ Nat.lt_succ_self _⟩
    have hmapped : Mapped (t.child s.born).idx := hin.forked s.born hrunning
    rw [hnew, mapped_iff, heq] at hmapped
    exact lt_irrefl _ hmapped

/-! ### Runs -/

lemma Step.inMapping {e : Event} (hs : Step s e s') (h : s.IdxMapped) :
    (s'.InMapping ↔ s.BelowLimit e) ∧ (s.BelowLimit e → s'.IdxMapped) := by
  have hkept : s.BelowLimit e → s'.IdxMapped → (s'.InMapping ↔ s.BelowLimit e) ∧
      (s.BelowLimit e → s'.IdxMapped) :=
    fun hok h' => ⟨iff_of_true h'.inMapping hok, fun _ => h'⟩
  cases hs with
  | tables _ _ ht => exact h.tables ht
  | childClear => exact hkept trivial h.childClear
  | childRecv => exact hkept trivial h.childRecv
  | childTell _ hplace => exact hkept trivial (h.childTell hplace)
  | childLeave => exact hkept trivial h.leave
  | childWake => exact hkept trivial h.childWake
  | childTake => exact hkept trivial h.childTake
  | childEmit => exact hkept trivial h.childEmit
  | parentWake => exact hkept trivial { h with }
  | parentRead => exact hkept trivial h.parentRead
  | parentSkip => exact hkept trivial { h with }
  | parentSend hforward => exact hkept trivial (h.parentSend hforward)

/-- In a run the running children stay within the mapping in every state if and only if no user is
admitted when there are `USER_LIMIT` of them. -/
theorem run_inMapping_iff {users : ℕ → ClientData} {fds : Finset ℕ} {shareMem : ℕ → Bytes}
    {es : List Event} :
    Trace (fun s e s' => Step s e s' ∧ s'.InMapping) (start users fds shareMem) es s ↔
      Trace (fun s e s' => Step s e s' ∧ s.BelowLimit e) (start users fds shareMem) es s :=
  Trace.guard_iff (fun _ _ _ h hs => hs.inMapping h) idxMapped_start

/-- Six users come, and nobody leaves: the segment of the last one lies behind the mapping. -/
theorem run_notInMapping : ∃ s : Messages,
    Trace Step (start (fun _ => ⟨0, 0, 0, 0⟩) {0, 1, 2, 3, 4, 5, 6} fun _ => [])
      [.tables (.accept 7 8 9 (some 100)), .tables (.accept 7 9 10 (some 101)),
        .tables (.accept 7 10 11 (some 102)), .tables (.accept 7 11 12 (some 103)),
        .tables (.accept 7 12 13 (some 104)), .tables (.accept 7 13 14 (some 105))] s ∧
      s.running 5 = true ∧ (s.child 5).idx = userLimit ∧ ¬ s.InMapping := by
  have hrun : Trace Step (start (fun _ => ⟨0, 0, 0, 0⟩) {0, 1, 2, 3, 4, 5, 6} fun _ => [])
      [.tables (.accept 7 8 9 (some 100)), .tables (.accept 7 9 10 (some 101)),
        .tables (.accept 7 10 11 (some 102)), .tables (.accept 7 11 12 (some 103)),
        .tables (.accept 7 12 13 (some 104)), .tables (.accept 7 13 14 (some 105))] _ :=
    .cons (.tables rfl (by simp) (.accept ⟨rfl, rfl, rfl, by decide, by decide⟩ rfl))
      (.cons (.tables rfl (by simp) (.accept ⟨rfl, rfl, rfl, by decide, by decide⟩ rfl))
      (.cons (.tables rfl (by simp) (.accept ⟨rfl, rfl, rfl, by decide, by decide⟩ rfl))
      (.cons (.tables rfl (by simp) (.accept ⟨rfl, rfl, rfl, by decide, by decide⟩ rfl))
      (.cons (.tables rfl (by simp) (.accept ⟨rfl, rfl, rfl, by decide, by decide⟩ rfl))
      (.cons (.tables rfl (by simp) (.accept ⟨rfl, rfl, rfl, by decide, by decide⟩ rfl)) (.nil _))))))
  refine ⟨_, hrun, rfl, rfl, ?_⟩
  intro h
  exact lt_irrefl _ (mapped_iff.mp (h.forked 5 rfl))

end LinuxServer.ChatroomMultiprocess.Messages
