import LinuxServer.ChatroomMultiprocess.Children

/-!
# The delivery of messages

The parent reads an index and hands it to every child but its sender. As long as no arrival merges with
a pending event, no index stays in a pipe. So what the server keeps holds in every run of admissible
steps, and all that is announced is delivered.
-/

namespace LinuxServer.ChatroomMultiprocess.Messages

open Core

variable {s : Messages} {c fd : ℕ}

/-! ### The parent -/

lemma Good.parentWake (h : s.Good) (ht : ∀ fd, s.upTaken fd = false) : s.parentWake.Good := by
  refine { h with unborn := ?_, upLe := ?_ }
  · intro c hc
    obtain ⟨hup, hrest⟩ := h.unborn c hc
    refine ⟨?_, hrest⟩
    show (s.up c).wake = .empty
    rw [hup]
    rfl
  · intro fd c hfd
    have hle := h.upLe fd c hfd
    have hpending : s.pending fd = (s.up c).event := by
      rw [pending, show s.fds fd = some (.pipe c) from hfd]
    show (s.up c).items.length ≤ false.toNat + (s.pending fd).toNat
    rw [hpending]
    rw [ht fd] at hle
    simpa [Nat.add_comm] using hle

lemma Good.parentSkip (h : s.Good) (hfd : s.fds fd = none) : (s.parentSkip fd).Good := by
  refine { h with upLe := ?_ }
  intro fd' c hfd'
  have hne : fd' ≠ fd := by
    rintro rfl
    cases hfd.symm.trans hfd'
  show _ ≤ _ + (Function.update s.upTaken fd false fd').toNat
  rw [Function.update_of_ne hne]
  exact h.upLe fd' c hfd'

lemma mem_pipes {fd : ℕ} : fd ∈ s.pipes ↔ ∃ i < s.userCount, (s.users i).pipefd₀ = fd := by
  rw [pipes, mem_segment, Nat.zero_add]
  simp only [Nat.zero_le, true_and]

lemma Good.nodup_pipes (h : s.Good) : s.pipes.Nodup := by
  apply (List.nodup_map_iff_inj_on List.nodup_range').mpr
  intro i hi j hj heq
  rw [List.mem_range'_1, Nat.zero_add] at hi hj
  exact h.wired.injective i hi.2 j hj.2 heq

section

variable {c' : ℕ}

lemma up_parentRead_self : ((s.parentRead fd c).up c).items = (s.up c).items.tail := by
  show (Function.update s.up c _ c).items = _
  rw [Function.update_self]
  rfl

lemma event_parentRead_self : ((s.parentRead fd c).up c).event = (s.up c).event := by
  show (Function.update s.up c _ c).event = _
  rw [Function.update_self]
  rfl

lemma up_parentRead_of_ne (hne : c' ≠ c) : (s.parentRead fd c).up c' = s.up c' :=
  Function.update_of_ne hne _ _

lemma mem_up_parentRead {a : Announcement} (ha : a ∈ ((s.parentRead fd c).up c').items) :
    a ∈ (s.up c').items := by
  by_cases hcc : c' = c
  · subst hcc
    rw [up_parentRead_self] at ha
    exact List.mem_of_mem_tail ha
  · rw [up_parentRead_of_ne hcc] at ha
    exact ha

lemma outgoing_parentRead_of_ne (hne : c' ≠ c) : (s.parentRead fd c).outgoing c' = s.outgoing c' := by
  rw [outgoing, up_parentRead_of_ne hne]
  rfl

/-- What is read is no longer to be read. -/
lemma outgoing_parentRead : ((s.parentRead fd c).outgoing c').Sublist (s.outgoing c') := by
  by_cases hcc : c' = c
  · subst hcc
    rw [outgoing, up_parentRead_self]
    exact (List.tail_sublist _).append_right _
  · rw [outgoing_parentRead_of_ne hcc]

/-- The loop sends what was read to the pipes of the other users. -/
lemma mem_forward_parentRead {fd' : ℕ} {a : Announcement} : (fd', a) ∈ (s.parentRead fd c).forward ↔
    (s.up c).items.head? = some a ∧ fd' ∈ s.pipes ∧ fd' ≠ fd := by
  show (fd', a) ∈ ((s.up c).items.head?.map fun a =>
    (s.pipes.filter fun fd' => fd' ≠ fd).map fun fd' => (fd', a)).getD [] ↔ _
  cases hhead : (s.up c).items.head? with
  | none => simp
  | some a' =>
    simp only [Option.map_some, Option.getD_some, List.mem_map, List.mem_filter, Option.some.injEq,
      Prod.mk.injEq, decide_eq_true_eq]
    constructor
    · rintro ⟨fd'', hfd'', rfl, rfl⟩
      exact ⟨rfl, hfd''⟩
    · rintro ⟨rfl, hfd''⟩
      exact ⟨fd', hfd'', rfl, rfl⟩

end

lemma Good.nodup_forward_parentRead (h : s.Good) :
    ((s.parentRead fd c).forward.map Prod.fst).Nodup := by
  show ((((s.up c).items.head?.map fun a =>
    (s.pipes.filter fun fd' => fd' ≠ fd).map fun fd' => (fd', a)).getD []).map Prod.fst).Nodup
  cases (s.up c).items.head? with
  | none => exact .nil
  | some a =>
    rw [Option.map_some, Option.getD_some, List.map_map]
    exact (List.map_id _).symm ▸ h.nodup_pipes.filter _

/-- What was read stood in the pipe of its child once. -/
lemma Good.ne_of_parentRead {c' : ℕ} {a a' : Announcement} (h : s.Good)
    (hhead : (s.up c).items.head? = some a) (ha' : a' ∈ (s.parentRead fd c).outgoing c') :
    a'.message ≠ a.message := by
  intro heq
  by_cases hcc : c' = c
  · subst hcc
    have hnodup := h.upNodup c'
    obtain ⟨rest, hitems⟩ := List.head?_eq_some_iff.mp hhead
    rw [outgoing, up_parentRead_self, hitems, List.tail_cons] at ha'
    rw [outgoing, hitems, List.cons_append, List.map_cons, List.nodup_cons] at hnodup
    exact hnodup.1 (heq ▸ List.mem_map_of_mem ha')
  · have hsender := (h.upMem c' a' (outgoing_parentRead.subset ha')).2.1
    rw [heq, (h.upMem c a (List.mem_append_left _ (List.mem_of_head? hhead))).2.1] at hsender
    exact hcc hsender.symm

/-- An announcement in a pipe that is due to `j` stays there, or the loop comes to `j` with it. -/
lemma Good.due_parentRead {c' j : ℕ} {a : Announcement} (h : s.Good)
    (hfd : s.fds fd = some (.pipe c)) (hj : s.running j = true) (ha : a ∈ (s.up c').items)
    (hsender : a.message.sender ≠ j) :
    a ∈ ((s.parentRead fd c).up c').items ∨
      ∃ fd', (fd', a) ∈ (s.parentRead fd c).forward ∧ s.fds fd' = some (.pipe j) := by
  by_cases hcc : c' = c
  · subst hcc
    cases hitems : (s.up c').items with
    | nil =>
      rw [hitems] at ha
      cases ha
    | cons first rest =>
      rw [hitems, List.mem_cons] at ha
      rcases ha with rfl | hrest
      · right
        obtain ⟨i, hi, hpipe⟩ := h.listed j hj
        refine ⟨(s.users i).pipefd₀, mem_forward_parentRead.mpr ⟨?_, mem_pipes.mpr ⟨i, hi, rfl⟩, ?_⟩, hpipe⟩
        · rw [hitems]
          rfl
        · intro hsame
          have hsender' := (h.upMem c' a (List.mem_append_left _ (hitems ▸ List.mem_cons_self))).2.1
          rw [hsame, hfd] at hpipe
          cases hpipe
          exact hsender hsender'
      · left
        rw [up_parentRead_self, hitems]
        exact hrest
  · left
    rw [up_parentRead_of_ne hcc]
    exact ha

/-- The parent reads an index and begins its loop, in which every other child will get it. -/
lemma Good.parentRead (h : s.Good) (hforward : s.forward = []) (ht : s.upTaken fd = true)
    (hfd : s.fds fd = some (.pipe c)) : (s.parentRead fd c).Good := by
  refine { h with
    unborn := ?_, upLe := ?_, tellUp := ?_
    upMem := fun c' a ha => h.upMem c' a (outgoing_parentRead.subset ha)
    upNodup := fun c' => (h.upNodup c').sublist (outgoing_parentRead.map _)
    handedUp := fun c' j a ha => h.handedUp c' j a (outgoing_parentRead.subset ha)
    forwardNodup := h.nodup_forward_parentRead
    forwardMem := ?_, segment := ?_, due := ?_ }
  · intro c' hc'
    obtain ⟨hupc, hrest⟩ := h.unborn c' hc'
    have hne : c' ≠ c := by
      rintro rfl
      exact absurd (h.wired.born fd c' hfd) (not_lt.mpr hc')
    exact ⟨(up_parentRead_of_ne hne).trans hupc, hrest⟩
  · intro fd' c' hfd'
    have hle := h.upLe fd' c' hfd'
    by_cases hcc : c' = c
    · subst hcc
      obtain rfl : fd' = fd := h.wired.one fd' fd c' hfd' hfd
      have htaken : (s.parentRead fd' c').upTaken fd' = false := Function.update_self _ _ _
      rw [ht, Bool.toNat_true] at hle
      rw [up_parentRead_self, htaken, event_parentRead_self, List.length_tail]
      show _ ≤ _ + 0
      omega
    · have hne : fd' ≠ fd := by
        rintro rfl
        cases hfd.symm.trans hfd'
        exact hcc rfl
      have htaken : (s.parentRead fd c).upTaken fd' = s.upTaken fd' := Function.update_of_ne hne _ _
      rw [up_parentRead_of_ne hcc, htaken]
      exact hle
  · intro c' a hc' hplace
    rw [List.eq_nil_iff_forall_not_mem]
    intro a' ha'
    have hmem := mem_up_parentRead ha'
    rw [h.tellUp c' a hc' hplace] at hmem
    cases hmem
  · intro fd' a ha
    obtain ⟨hhead, hpipe, hne⟩ := mem_forward_parentRead.mp ha
    have hout : a ∈ s.outgoing c := List.mem_append_left _ (List.mem_of_head? hhead)
    obtain ⟨-, hsender, hserial⟩ := h.upMem c a hout
    refine ⟨hserial, fun _ _ ha' => h.ne_of_parentRead hhead ha', ?_⟩
    intro c' hfd'
    refine ⟨?_, h.handedUp c c' a hout⟩
    rw [hsender]
    rintro rfl
    exact hne (h.wired.one fd' fd c hfd' hfd)
  · rintro a (⟨fd', c', hfd', ha⟩ | htell | ⟨fd', ha⟩ | hdown)
    · exact h.segment a (.inl ⟨fd', c', hfd', mem_up_parentRead ha⟩)
    · exact h.segment a (.inr (.inl htell))
    · have hhead := (mem_forward_parentRead.mp ha).1
      exact h.segment a (.inl ⟨fd, c, hfd, List.mem_of_head? hhead⟩)
    · exact h.segment a (.inr (.inr (.inr hdown)))
  · intro j hj m hm
    obtain ⟨hsender, hhanded | ⟨fd', a, ha, -⟩ | ⟨fd', c', a, hfd', ha, heq⟩⟩ := h.due j hj m hm
    · exact ⟨hsender, .inl hhanded⟩
    · rw [hforward] at ha
      cases ha
    · subst heq
      rcases h.due_parentRead hfd hj ha hsender with hstays | ⟨fd'', hloop, hpipe⟩
      · exact ⟨hsender, .inr (.inr ⟨fd', c', a, hfd', hstays, rfl⟩)⟩
      · exact ⟨hsender, .inr (.inl ⟨fd'', a, hloop, hpipe, rfl⟩)⟩

variable {a : Announcement} {rest : List (ℕ × Announcement)}

lemma mem_forward_of_tail {x : ℕ × Announcement} (hforward : s.forward = (fd, a) :: rest)
    (hx : x ∈ rest) : x ∈ s.forward := by
  rw [hforward]
  exact List.mem_cons_of_mem _ hx

/-- A turn of the loop whose user has left. -/
lemma Good.drop (h : s.Good) (hforward : s.forward = (fd, a) :: rest)
    (hgone : ∀ c, s.fds fd = some (.pipe c) → s.running c ≠ true) :
    Good { s with forward := rest } := by
  have hnodup := h.forwardNodup
  rw [hforward, List.map_cons, List.nodup_cons] at hnodup
  refine { h with
    forwardNodup := hnodup.2
    forwardMem := fun fd' a' ha' => h.forwardMem fd' a' (mem_forward_of_tail hforward ha')
    segment := fun a' ha' => h.segment a'
      (ha'.of_subset rfl (fun _ => mem_forward_of_tail hforward) (fun _ => id) (fun _ _ => id)
        (fun _ _ => id) fun _ _ => id)
    due := ?_ }
  · intro j hj m hm
    obtain ⟨hsender, hhanded | ⟨fd', a', ha', hfd', heq⟩ | hup⟩ := h.due j hj m hm
    · exact ⟨hsender, .inl hhanded⟩
    · refine ⟨hsender, .inr (.inl ⟨fd', a', ?_, hfd', heq⟩)⟩
      rw [hforward, List.mem_cons] at ha'
      rcases ha' with hfirst | hrest
      · cases hfirst
        exact absurd hj (hgone j hfd')
      · exact hrest
    · exact ⟨hsender, .inr (.inr hup)⟩

section

variable {c' : ℕ} {m : Message}

lemma down_hand_self : (s.hand c a).down c = (s.down c).arrive a := Function.update_self _ _ _

lemma handed_hand_self : (s.hand c a).handed c = s.handed c ++ [a.message] :=
  Function.update_self _ _ _

lemma hand_of_ne (hne : c' ≠ c) :
    (s.hand c a).down c' = s.down c' ∧ (s.hand c a).handed c' = s.handed c' :=
  ⟨Function.update_of_ne hne _ _, Function.update_of_ne hne _ _⟩

/-- A message that was handed to a child is the new one or an old one. -/
lemma mem_handed_hand (hm : m ∈ (s.hand c a).handed c') :
    m ∈ s.handed c' ∨ c' = c ∧ m = a.message := by
  by_cases hcc : c' = c
  · subst hcc
    rw [handed_hand_self, List.mem_append, List.mem_singleton] at hm
    exact hm.imp_right fun heq => ⟨rfl, heq⟩
  · rw [(hand_of_ne hcc).2] at hm
    exact .inl hm

lemma handed_subset_hand (hm : m ∈ s.handed c') : m ∈ (s.hand c a).handed c' := by
  by_cases hcc : c' = c
  · subst hcc
    rw [handed_hand_self]
    exact List.mem_append_left _ hm
  · rw [(hand_of_ne hcc).2]
    exact hm

lemma incoming_hand_self : (s.hand c a).incoming c = s.incoming c ++ [a] := by
  rw [incoming, down_hand_self, incoming, List.append_assoc]
  rfl

lemma incoming_hand_of_ne (hne : c' ≠ c) : (s.hand c a).incoming c' = s.incoming c' := by
  rw [incoming, (hand_of_ne hne).1]
  rfl

/-- An index on the way to a child is the new one or an old one. -/
lemma mem_incoming_hand {a' : Announcement} (ha' : a' ∈ (s.hand c a).incoming c') :
    a' ∈ s.incoming c' ∨ c' = c ∧ a' = a := by
  by_cases hcc : c' = c
  · subst hcc
    rw [incoming_hand_self, List.mem_append, List.mem_singleton] at ha'
    exact ha'.imp_right fun heq => ⟨rfl, heq⟩
  · rw [incoming_hand_of_ne hcc] at ha'
    exact .inl ha'

/-- The event that comes with the index pays for it. -/
lemma Good.hand_downLe (h : s.Good) (hc' : s.running c' = true) (he : (s.down c).event = false) :
    ((s.hand c a).down c').items.length ≤
      ((s.hand c a).down c').event.toNat + (s.downTaken c').toNat := by
  have hle := h.downLe c' hc'
  by_cases hcc : c' = c
  · subst hcc
    rw [he, Bool.toNat_false] at hle
    rw [down_hand_self]
    show ((s.down c').items ++ [a]).length ≤ true.toNat + _
    rw [List.length_append, List.length_singleton, Bool.toNat_true]
    omega
  · rw [(hand_of_ne hcc).1]
    exact hle

lemma Good.hand_handedEq (h : s.Good) :
    (s.hand c a).handed c' =
      (s.sent c').map Prod.fst ++ ((s.hand c a).incoming c').map Announcement.message := by
  by_cases hcc : c' = c
  · subst hcc
    rw [handed_hand_self, incoming_hand_self, h.handedEq c', List.append_assoc, List.map_append]
    rfl
  · rw [incoming_hand_of_ne hcc, (hand_of_ne hcc).2]
    exact h.handedEq c'

lemma Good.hand_handedNodup (h : s.Good) (hnew : a.message ∉ s.handed c) :
    ((s.hand c a).handed c').Nodup := by
  by_cases hcc : c' = c
  · subst hcc
    rw [handed_hand_self]
    exact (h.handedNodup c').append (List.nodup_singleton _) (List.disjoint_singleton.mpr hnew)
  · rw [(hand_of_ne hcc).2]
    exact h.handedNodup c'

end

/-- A turn of the loop: the index arrives at the child `c`, which has no event pending. -/
lemma Good.hand (h : s.Good) (hforward : s.forward = (fd, a) :: rest)
    (hfd : s.fds fd = some (.pipe c)) (hc : s.running c = true) (he : (s.down c).event = false) :
    Good { s.hand c a with forward := rest } := by
  have hfirst : (fd, a) ∈ s.forward := by
    rw [hforward]
    exact List.mem_cons_self
  have hnodup := h.forwardNodup
  rw [hforward, List.map_cons, List.nodup_cons] at hnodup
  obtain ⟨hserial, hup, hnew⟩ := h.forwardMem fd a hfirst
  obtain ⟨hsender, hnew⟩ := hnew c hfd
  refine { h with
    unborn := ?_, downLe := ?_, handedEq := ?_, handedMem := ?_, handedNodup := ?_, handedUp := ?_
    forwardNodup := hnodup.2
    forwardMem := ?_, segment := ?_, due := ?_ }
  · intro c' hc'
    obtain ⟨hupc, hdownc, hloop, hhandedc, hrest⟩ := h.unborn c' hc'
    have hne := h.ne_of_born_le hc hc'
    exact ⟨hupc, (hand_of_ne hne).1.trans hdownc, hloop, (hand_of_ne hne).2.trans hhandedc, hrest⟩
  · exact fun c' hc' => h.hand_downLe hc' he
  · exact fun c' => h.hand_handedEq
  · intro c' m hm
    rcases mem_handed_hand hm with hm | ⟨rfl, rfl⟩
    · exact h.handedMem c' m hm
    · exact ⟨hsender, hserial⟩
  · exact fun c' => h.hand_handedNodup hnew
  · intro c' j a' ha' hm
    rcases mem_handed_hand hm with hm | ⟨rfl, heq⟩
    · exact h.handedUp c' j a' ha' hm
    · exact hup c' a' ha' heq
  · intro fd' a' ha'
    obtain ⟨hserial', hup', hnew'⟩ := h.forwardMem fd' a' (mem_forward_of_tail hforward ha')
    refine ⟨hserial', hup', ?_⟩
    intro c' hfd'
    refine ⟨(hnew' c' hfd').1, ?_⟩
    intro hm
    rcases mem_handed_hand hm with hm | ⟨rfl, heq⟩
    · exact (hnew' c' hfd').2 hm
    · -- the loop comes to each user once
      obtain rfl : fd' = fd := h.wired.one fd' fd c' hfd' hfd
      have hrest : fd' ∈ rest.map Prod.fst := List.mem_map.mpr ⟨_, ha', rfl⟩
      exact hnodup.1 hrest
  · rintro a' (hup' | htell | ⟨fd', ha'⟩ | ⟨c', hc', ha'⟩)
    · exact h.segment a' (.inl hup')
    · exact h.segment a' (.inr (.inl htell))
    · exact h.segment a' (.inr (.inr (.inl ⟨fd', mem_forward_of_tail hforward ha'⟩)))
    · have hin : a' ∈ (s.hand c a).incoming c' := ha'
      rcases mem_incoming_hand hin with hold | ⟨-, rfl⟩
      · exact h.segment a' (.inr (.inr (.inr ⟨c', hc', hold⟩)))
      · exact h.segment a' (.inr (.inr (.inl ⟨fd, hfirst⟩)))
  · intro j hj m hm
    obtain ⟨hsender', hm' | ⟨fd', a', ha', hfd', heq⟩ | hup'⟩ := h.due j hj m hm
    · exact ⟨hsender', .inl (handed_subset_hand hm')⟩
    · refine ⟨hsender', ?_⟩
      rw [hforward, List.mem_cons] at ha'
      rcases ha' with hfirst' | hrest
      · cases hfirst'
        cases hfd.symm.trans hfd'
        left
        show m ∈ (s.hand c a).handed c
        rw [handed_hand_self, ← heq]
        exact List.mem_append_right _ (List.mem_singleton_self _)
      · exact .inr (.inl ⟨fd', a', hrest, hfd', heq⟩)
    · exact ⟨hsender', .inr (.inr hup')⟩

lemma Good.parentSend {sent : Bool} (h : s.Good) (hforward : s.forward = (fd, a) :: rest)
    (hok : ∀ c, s.fds fd = some (.pipe c) → s.running c = true →
      (s.down c).event = false ∧ sent = true) : (s.parentSend fd a rest sent).Good := by
  rw [Messages.parentSend]
  split
  next c hfd =>
    split
    next hc => exact h.hand hforward hfd hc.1 (hok c hfd hc.1).1
    next hc =>
      apply h.drop hforward
      intro c' hfd'
      cases hfd.symm.trans hfd'
      exact fun hrunning => hc ⟨hrunning, (hok c hfd hrunning).2⟩
  next hother =>
    apply h.drop hforward
    intro c' hfd'
    exact absurd hfd' (hother c')

/-! ### The tables -/

/-- What the messages need of a step of the tables: a pipe is closed when it is empty, and the children
that run are listed. -/
lemma Good.withTables {t : ChatroomMultiprocess} (h : s.Good) (hw : t.Wired) (hborn : s.born ≤ t.born)
    (hlisted : ∀ c, s.running c = true ∨ s.born ≤ c ∧ c < t.born → t.Listed c)
    (hfds : ∀ fd c, t.fds fd = some (.pipe c) → s.fds fd = some (.pipe c) ∨ s.born ≤ c)
    (hidx : ∀ c < s.born, (t.child c).idx = (s.child c).idx)
    (hup : ∀ fd c, s.fds fd = some (.pipe c) → t.fds fd = some (.pipe c) ∨ (s.up c).items = [])
    (hforward : s.forward = []) : (s.withTables t).Good := by
  have hrunning : ∀ c, (s.withTables t).running c = true →
      s.running c = true ∨ s.born ≤ c ∧ c < t.born := by
    intro c hc
    have hc' : (if s.born ≤ c ∧ c < t.born then true else s.running c) = true := hc
    split at hc'
    next hnew => exact .inr hnew
    next => exact .inl hc'
  have hempty : ∀ c, s.born ≤ c → (s.up c).items = [] ∧ (s.down c).items = [] ∧ s.place c = .loop := by
    intro c hc
    obtain ⟨hupc, hdown, hloop, -⟩ := h.unborn c hc
    rw [hupc, hdown]
    exact ⟨rfl, rfl, hloop⟩
  refine { h with
    wired := hw
    listed := fun c hc => hlisted c (hrunning c hc)
    unborn := fun c hc => h.unborn c (hborn.trans hc)
    upLe := ?_, downLe := ?_, tellUp := ?_, upMem := ?_, forwardMem := ?_, segment := ?_, due := ?_ }
  · intro fd c hfd
    rcases hfds fd c hfd with hold | hnew
    · exact h.upLe fd c hold
    · show (s.up c).items.length ≤ _
      rw [(hempty c hnew).1]
      exact Nat.zero_le _
  · intro c hc
    rcases hrunning c hc with hold | ⟨hnew, -⟩
    · exact h.downLe c hold
    · show (s.down c).items.length ≤ _
      rw [(hempty c hnew).2.1]
      exact Nat.zero_le _
  · intro c a hc hplace
    rcases hrunning c hc with hold | ⟨hnew, -⟩
    · exact h.tellUp c a hold hplace
    · exact (hempty c hnew).1
  · intro c a ha
    have hc : c < s.born := by
      by_contra hnew
      obtain ⟨hupc, -, hloop⟩ := hempty c (not_lt.mp hnew)
      have ha' : a ∈ (s.up c).items ++ (s.place c).toTell := ha
      rw [hupc, hloop] at ha'
      cases ha'
    obtain ⟨hidx', hrest⟩ := h.upMem c a ha
    exact ⟨hidx'.trans (hidx c hc).symm, hrest⟩
  · intro fd a ha
    have ha' : (fd, a) ∈ s.forward := ha
    rw [hforward] at ha'
    cases ha'
  · rintro a (⟨fd, c, hfd, ha⟩ | ⟨c, hc, hplace⟩ | hfwd | ⟨c, hc, ha⟩)
    · rcases hfds fd c hfd with hold | hnew
      · exact h.segment a (.inl ⟨fd, c, hold, ha⟩)
      · have ha' : a ∈ (s.up c).items := ha
        rw [(hempty c hnew).1] at ha'
        cases ha'
    · rcases hrunning c hc with hold | ⟨hnew, -⟩
      · exact h.segment a (.inr (.inl ⟨c, hold, hplace⟩))
      · cases (hempty c hnew).2.2.symm.trans hplace
    · exact h.segment a (.inr (.inr (.inl hfwd)))
    · rcases hrunning c hc with hold | ⟨hnew, -⟩
      · exact h.segment a (.inr (.inr (.inr ⟨c, hold, ha⟩)))
      · obtain ⟨-, hdown, hloop⟩ := hempty c hnew
        have ha' : a ∈ (s.place c).toEmit ++ (s.down c).items := ha
        rw [hdown, hloop] at ha'
        cases ha'
  · intro j hj m hm
    rcases hrunning j hj with hold | ⟨hnew, -⟩
    · obtain ⟨hsender, hhanded | ⟨fd, a, ha, -⟩ | ⟨fd, c, a, hfd, ha, heq⟩⟩ := h.due j hold m hm
      · exact ⟨hsender, .inl hhanded⟩
      · rw [hforward] at ha
        cases ha
      · refine ⟨hsender, .inr (.inr ⟨fd, c, a, ?_, ha, heq⟩)⟩
        rcases hup fd c hfd with hkept | hgone
        · exact hkept
        · rw [hgone] at ha
          cases ha
    · have hm' : m ∈ s.due j := hm
      rw [(h.unborn j hnew).2.2.2.2.2] at hm'
      cases hm'

/-- A step of the tables that changes nothing but flags. -/
lemma Good.withTables_same {t : ChatroomMultiprocess} (h : s.Good) (hforward : s.forward = [])
    (husers : t.users = s.users) (hcount : t.userCount = s.userCount) (hfds : t.fds = s.fds)
    (hchild : t.child = s.child) (hborn : t.born = s.born) (hreaped : t.reaped = s.reaped)
    (hsub : t.subProcess = s.subProcess) : (s.withTables t).Good := by
  have hlisted : ∀ c, s.Listed c → t.Listed c := by
    rintro c ⟨i, hi, hpipe⟩
    refine ⟨i, hcount ▸ hi, ?_⟩
    rw [hfds, husers]
    exact hpipe
  refine h.withTables ?_ hborn.ge ?_ ?_ ?_ ?_ hforward
  · refine ⟨h.wired.counted.congr hcount hreaped hborn hchild hsub, ?_, ?_, ?_, ?_⟩
    · rw [hcount, hfds, husers]
      exact h.wired.isOpen
    · rw [hcount, husers]
      exact h.wired.injective
    · rw [hfds]
      exact h.wired.one
    · rw [hfds, hborn]
      exact h.wired.born
  · rintro c (hc | ⟨hle, hlt⟩)
    · exact hlisted c (h.listed c hc)
    · rw [hborn] at hlt
      exact absurd hlt (not_lt.mpr hle)
  · intro fd c hfd
    rw [hfds] at hfd
    exact .inl hfd
  · intro c _
    rw [hchild]
  · intro fd c hfd
    rw [hfds]
    exact .inl hfd

lemma Good.tables {e : ChatroomMultiprocess.Event} {t : ChatroomMultiprocess} (h : s.Good)
    (hforward : s.forward = []) (hexit : ∀ c, e = .exit c → s.running c = false)
    (hs : ChatroomMultiprocess.Step s.toChatroomMultiprocess e t) (hok : s.Admissible (.tables e)) :
    (s.withTables t).Good := by
  have hcounted : t.Counted := hs.counted h.wired.counted
  cases hs with
  | @accept _ connfd p₀ p₁ fork hfresh haccept =>
    rcases accept_cases haccept with ⟨-, rfl⟩ | ⟨-, -, rfl⟩ | ⟨-, pid, -, -, rfl⟩
    · exact h.withTables_same hforward rfl rfl rfl rfl rfl rfl rfl
    · refine h.withTables (h.wired.prepare hfresh.pipe₀ hfresh.pipe₁) le_rfl ?_ ?_ (fun _ _ => rfl) ?_
        hforward
      · rintro c (hc | ⟨hle, hlt⟩)
        · exact listed_prepare hfresh.pipe₀ hfresh.pipe₁ (h.listed c hc)
        · exact absurd hlt (not_lt.mpr hle)
      · intro fd c hfd
        exact .inl ((fds_prepare_pipe hfresh.pipe₀ hfresh.pipe₁).mp hfd)
      · intro fd c hfd
        exact .inl ((fds_prepare_pipe hfresh.pipe₀ hfresh.pipe₁).mpr hfd)
    · have hadmitted : Admitted s.toChatroomMultiprocess p₀ pid
          ((s.prepare connfd p₀ p₁).enroll p₀ p₁ pid) :=
        admitted hfresh.pipe₀ hfresh.pipe₁
      refine h.withTables (hadmitted.wired h.wired hcounted rfl hfresh.pipe₀) (Nat.le_succ _) ?_ ?_ ?_ ?_
        hforward
      · rintro c (hc | ⟨hle, hlt⟩)
        · exact hadmitted.listed (.inl (h.listed c hc))
        · exact hadmitted.listed (.inr (le_antisymm (Nat.le_of_lt_succ hlt) hle))
      · intro fd c hfd
        rcases hadmitted.pipes fd c hfd with ⟨-, rfl⟩ | hold
        · exact .inr le_rfl
        · exact .inl hold
      · intro c hc
        rw [hadmitted.child c hc.ne]
      · intro fd c hfd
        exact .inl (hadmitted.fds_pipe hfd)
  | @exit _ c hlive hhandle =>
    obtain ⟨⟨j, hj, hplace, hpipe⟩, hempty⟩ := hok
    obtain ⟨n, -, hleft⟩ := h.wired.counted.left hlive hplace hhandle
    have hborn := hleft.born
    refine h.withTables (hleft.wired h.wired hcounted hj) hborn.ge ?_ ?_ ?_ ?_ hforward
    · rintro c' (hc' | ⟨hle, hlt⟩)
      · refine hleft.listed hj hpipe ?_ (h.listed c' hc')
        rintro rfl
        rw [hexit c' rfl] at hc'
        cases hc'
      · rw [hborn] at hlt
        exact absurd hlt (not_lt.mpr hle)
    · intro fd c' hfd
      exact .inl (hleft.fds_pipe.mp hfd).2
    · intro c' _
      rw [hleft.child, idx_reap]
    · intro fd c' hfd
      by_cases hclosed : fd = (s.users j).pipefd₀
      · right
        rw [hclosed, hpipe] at hfd
        cases hfd
        exact hempty
      · exact .inl (hleft.fds_pipe.mpr ⟨hclosed, hfd⟩)
  | sigchldDone => exact h.withTables_same hforward rfl rfl rfl rfl rfl rfl rfl
  | sigterm =>
    rw [ChatroomMultiprocess.sigterm]
    split
    next => exact h.withTables_same hforward rfl rfl rfl rfl rfl rfl rfl
    next => exact h.withTables_same hforward rfl rfl rfl rfl rfl rfl rfl

/-! ### Runs -/

variable {s' : Messages}

lemma Step.good {e : Event} (hs : Step s e s') (h : s.Good) (hok : s.Admissible e) : s'.Good := by
  cases hs with
  | tables hforward hexit htables => exact h.tables hforward hexit htables hok
  | childClear hc hplace => exact h.childClear hc hplace hok
  | childRecv hc hplace hvalid => exact h.childRecv hc hplace hvalid hok
  | childTell hc hplace => exact h.childTell hc hplace
  | childLeave hc => exact h.leave hc
  | childWake hc _ ht he => exact h.childWake hc he ht
  | childTake hc hplace ht => exact h.childTake hc hplace ht
  | childEmit hc hplace _ =>
    obtain rfl := hok
    exact h.childEmit hc hplace
  | parentWake _ ht => exact h.parentWake ht
  | parentRead hforward ht hfd => exact h.parentRead hforward ht hfd
  | parentSkip _ _ hfd => exact h.parentSkip hfd
  | parentSend hforward => exact h.parentSend hforward fun c hfd hc => hok _ _ _ c hforward hfd hc

/-- In a run of admissible steps every message is delivered. -/
theorem run_delivered {users : ℕ → ClientData} {fds : Finset ℕ} {shareMem : ℕ → Bytes}
    {es : List Event}
    (hrun : Trace (fun s e s' => Step s e s' ∧ s.Admissible e) (start users fds shareMem) es s) :
    s.Delivered :=
  (hrun.invariant (fun _ _ _ h hs => hs.1.good h hs.2) good_start).delivered

/-- The child 0 announces a message, and the child 1 sends it. -/
theorem run_delivered_two : ∃ s : Messages,
    s.sent 1 = [(⟨0, 0, fill [0x61]⟩, fill [0x61])] ∧ s.Delivered := by
  have hsent : (putAt cleared 0 [0x61]).take bufferSize = fill [0x61] := by
    rw [putAt_cleared, ← @length_fill [0x61] (by decide), List.take_length]
  have hrun : Trace (fun s e s' => Step s e s' ∧ s.Admissible e)
      (start (fun _ => ⟨0, 0, 0, 0⟩) {0, 1, 2, 3, 4, 5, 6} fun _ => [])
      [.tables (.accept 7 8 9 (some 100)), .tables (.accept 7 9 10 (some 101)),
        .childClear 0, .childRecv 0 (.data [0x61]), .childTell 0 true, .parentWake, .parentRead 8,
        .parentSend true, .childWake 1, .childTake 1, .childEmit 1 bufferSize] _ :=
    .cons ⟨.tables rfl (by simp) (.accept ⟨rfl, rfl, rfl, by decide, by decide⟩ rfl), trivial⟩
      (.cons ⟨.tables rfl (by simp) (.accept ⟨rfl, rfl, rfl, by decide, by decide⟩ rfl), trivial⟩
      (.cons ⟨.childClear rfl rfl, by
        rintro a (⟨fd, c, -, ha⟩ | ⟨c, -, ha⟩ | ⟨fd, ha⟩ | ⟨c, -, ha⟩) <;> cases ha⟩
      (.cons ⟨.childRecv rfl rfl ⟨by simp, by decide⟩, by
        refine ⟨fun a ha => ?_, rfl⟩
        have hold := inFlight_setPlace (c := 0) (p := .recv) rfl rfl ha
        rcases hold with ⟨fd, c, -, ha⟩ | ⟨c, -, ha⟩ | ⟨fd, ha⟩ | ⟨c, -, ha⟩ <;> cases ha⟩
      (.cons ⟨.childTell rfl rfl, trivial⟩
      (.cons ⟨.parentWake rfl fun _ => rfl, trivial⟩ (.cons ⟨.parentRead rfl rfl rfl, trivial⟩
      (.cons ⟨.parentSend rfl, by
        rintro fd a rest c hforward hfd -
        cases hforward
        cases hfd
        exact ⟨rfl, rfl⟩⟩
      (.cons ⟨.childWake rfl rfl rfl rfl, trivial⟩ (.cons ⟨.childTake rfl rfl rfl, trivial⟩
      (.cons ⟨.childEmit rfl rfl le_rfl, rfl⟩ (.nil _)))))))))))
  refine ⟨_, ?_, run_delivered hrun⟩
  exact congrArg (fun block => [((⟨0, 0, fill [0x61]⟩ : Message), block)]) hsent

/-- The child 0 receives a second message before the parent has read of the first one: the child 1
sends the second one for the first, and the second index stays in the pipe. -/
theorem run_notDelivered : ∃ s : Messages,
    Trace Step (start (fun _ => ⟨0, 0, 0, 0⟩) {0, 1, 2, 3, 4, 5, 6} fun _ => [])
      [.tables (.accept 7 8 9 (some 100)), .tables (.accept 7 9 10 (some 101)),
        .childClear 0, .childRecv 0 (.data [0x61]), .childTell 0 true,
        .childClear 0, .childRecv 0 (.data [0x62]), .childTell 0 true, .parentWake, .parentRead 8,
        .parentSend true, .childWake 1, .childTake 1, .childEmit 1 bufferSize] s ∧
      s.sent 1 = [(⟨0, 0, fill [0x61]⟩, fill [0x62])] ∧
      s.up 0 = ⟨[⟨0, 1, 0, fill [0x62]⟩], false⟩ ∧ ¬ s.Delivered := by
  have hrun : Trace Step (start (fun _ => ⟨0, 0, 0, 0⟩) {0, 1, 2, 3, 4, 5, 6} fun _ => [])
      [.tables (.accept 7 8 9 (some 100)), .tables (.accept 7 9 10 (some 101)),
        .childClear 0, .childRecv 0 (.data [0x61]), .childTell 0 true,
        .childClear 0, .childRecv 0 (.data [0x62]), .childTell 0 true, .parentWake, .parentRead 8,
        .parentSend true, .childWake 1, .childTake 1, .childEmit 1 bufferSize] _ :=
    .cons (.tables rfl (by simp) (.accept ⟨rfl, rfl, rfl, by decide, by decide⟩ rfl))
      (.cons (.tables rfl (by simp) (.accept ⟨rfl, rfl, rfl, by decide, by decide⟩ rfl))
      (.cons (.childClear rfl rfl) (.cons (.childRecv rfl rfl ⟨by simp, by decide⟩)
      (.cons (.childTell rfl rfl) (.cons (.childClear rfl rfl)
      (.cons (.childRecv rfl rfl ⟨by simp, by decide⟩) (.cons (.childTell rfl rfl)
      (.cons (.parentWake rfl fun _ => rfl) (.cons (.parentRead rfl rfl rfl) (.cons (.parentSend rfl)
      (.cons (.childWake rfl rfl rfl rfl) (.cons (.childTake rfl rfl rfl)
      (.cons (.childEmit rfl rfl le_rfl) (.nil _))))))))))))))
  have hsent : (putAt cleared 0 [0x62]).take bufferSize = fill [0x62] := by
    rw [putAt_cleared, ← @length_fill [0x62] (by decide), List.take_length]
  refine ⟨_, hrun, congrArg (fun block => [((⟨0, 0, fill [0x61]⟩ : Message), block)]) hsent, rfl, ?_⟩
  intro h
  have hblock : (putAt cleared 0 [0x62]).take bufferSize = fill [0x61] :=
    h.bytes 1 ⟨0, 0, fill [0x61]⟩ _ (List.mem_singleton_self _)
  have hhead := congrArg List.head? (hsent.symm.trans hblock)
  revert hhead
  decide

end LinuxServer.ChatroomMultiprocess.Messages
