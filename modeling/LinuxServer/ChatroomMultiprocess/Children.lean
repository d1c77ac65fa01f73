import LinuxServer.ChatroomMultiprocess.Messages
import LinuxServer.ChatroomMultiprocess.Pipes

/-!
# What the children do with a message

A message is with its sender and then in its pipe, it is sent around by the parent, it is in the pipes
of the other children and then with them, and then it is sent. What the parent handed to a child is
what the child has sent, what it has read, and what is still in its pipe. As long as a child receives
nothing while its index is under way, the segment holds the message, and the pipe of the child is empty
when it announces the next one.
-/

namespace LinuxServer.ChatroomMultiprocess.Messages

open Core

variable {s : Messages} {c fd : ℕ}

/-! ### What the server keeps -/

structure Good (s : Messages) : Prop where
  wired : s.Wired
  listed : ∀ c, s.running c = true → s.Listed c
  unborn : ∀ c, s.born ≤ c → s.up c = .empty ∧ s.down c = .empty ∧ s.place c = .loop ∧
    s.handed c = [] ∧ s.sent c = [] ∧ s.due c = []
  /-- An index in a pipe has an event. -/
  upLe : ∀ fd c, s.fds fd = some (.pipe c) →
    (s.up c).items.length ≤ (s.up c).event.toNat + (s.upTaken fd).toNat
  downLe : ∀ c, s.running c = true →
    (s.down c).items.length ≤ (s.down c).event.toNat + (s.downTaken c).toNat
  /-- A child receives when its pipe is empty. -/
  tellUp : ∀ c a, s.running c = true → s.place c = .tell a → (s.up c).items = []
  upMem : ∀ c, ∀ a ∈ s.outgoing c,
    a.idx = (s.child c).idx ∧ a.message.sender = c ∧ a.message.serial < s.serial
  upNodup : ∀ c, ((s.outgoing c).map Announcement.message).Nodup
  handedEq : ∀ c, s.handed c = (s.sent c).map Prod.fst ++ (s.incoming c).map Announcement.message
  handedMem : ∀ c, ∀ m ∈ s.handed c, m.sender ≠ c ∧ m.serial < s.serial
  handedNodup : ∀ c, (s.handed c).Nodup
  handedUp : ∀ c j, ∀ a ∈ s.outgoing c, a.message ∉ s.handed j
  forwardNodup : (s.forward.map Prod.fst).Nodup
  forwardMem : ∀ fd a, (fd, a) ∈ s.forward → a.message.serial < s.serial ∧
    (∀ c, ∀ a' ∈ s.outgoing c, a'.message ≠ a.message) ∧
      ∀ c, s.fds fd = some (.pipe c) → a.message.sender ≠ c ∧ a.message ∉ s.handed c
  segment : ∀ a, s.InFlight a →
    s.shareMem a.idx = a.message.block ∧ a.message.block.length = bufferSize
  bytes : ∀ c m b, (m, b) ∈ s.sent c → b = m.block
  /-- What is due is handed, or it is still to be. -/
  due : ∀ j, s.running j = true → ∀ m ∈ s.due j, m.sender ≠ j ∧ (m ∈ s.handed j ∨
    (∃ fd a, (fd, a) ∈ s.forward ∧ s.fds fd = some (.pipe j) ∧ a.message = m) ∨
      ∃ fd c a, s.fds fd = some (.pipe c) ∧ a ∈ (s.up c).items ∧ a.message = m)

lemma good_start {users : ℕ → ClientData} {fds : Finset ℕ} {shareMem : ℕ → Bytes} :
    (start users fds shareMem).Good where
  wired := wired_start
  listed _ hc := by cases hc
  unborn _ _ := ⟨rfl, rfl, rfl, rfl, rfl, rfl⟩
  upLe _ _ _ := Nat.zero_le _
  downLe _ hc := by cases hc
  tellUp _ _ hc := by cases hc
  upMem _ _ ha := by cases ha
  upNodup _ := .nil
  handedEq _ := rfl
  handedMem _ _ hm := by cases hm
  handedNodup _ := .nil
  handedUp _ _ _ ha := by cases ha
  forwardNodup := .nil
  forwardMem _ _ ha := by cases ha
  segment := by
    rintro a (⟨fd, c, -, ha⟩ | ⟨c, hc, -⟩ | ⟨fd, ha⟩ | ⟨c, hc, -⟩)
    · cases ha
    · cases hc
    · cases ha
    · cases hc
  bytes _ _ _ hm := by cases hm
  due _ hj := by cases hj

lemma Good.lt_born (h : s.Good) (hc : s.running c = true) : c < s.born := by
  obtain ⟨i, -, hpipe⟩ := h.listed c hc
  exact h.wired.born _ c hpipe

lemma Good.ne_of_born_le {c' : ℕ} (h : s.Good) (hc : s.running c = true) (hc' : s.born ≤ c') :
    c' ≠ c := by
  rintro rfl
  exact absurd (h.lt_born hc) (not_lt.mpr hc')

/-- What the server is for is what it keeps. -/
lemma Good.delivered (h : s.Good) : s.Delivered where
  bytes := h.bytes
  sender c m b hm := by
    have hhanded : m ∈ s.handed c := by
      rw [h.handedEq]
      exact List.mem_append_left _ (List.mem_map_of_mem hm)
    exact (h.handedMem c m hhanded).1
  once c := by
    have hnodup := h.handedNodup c
    rw [h.handedEq] at hnodup
    exact hnodup.of_append_left
  segment a ha := (h.segment a ha).1
  all hq c hc m hm := by
    obtain ⟨hevent, htaken, hplace⟩ := hq.down c hc
    have hdown : s.incoming c = [] := by
      have hle := h.downLe c hc
      rw [hevent, htaken] at hle
      rw [incoming, hplace, List.length_eq_zero_iff.mp (Nat.le_zero.mp hle)]
      rfl
    obtain ⟨-, hhanded | ⟨fd, a, ha, -⟩ | ⟨fd, c', a, hfd, ha, -⟩⟩ := h.due c hc m hm
    · rw [h.handedEq, hdown, List.map_nil, List.append_nil] at hhanded
      exact hhanded
    · rw [hq.forward] at ha
      cases ha
    · have hle := h.upLe fd c' hfd
      have hpending := (hq.up fd).1
      rw [pending, hfd] at hpending
      rw [show (s.up c').event = false from hpending, (hq.up fd).2] at hle
      rw [List.length_eq_zero_iff.mp (Nat.le_zero.mp hle)] at ha
      cases ha

/-! ### Steps that announce nothing -/

section Still

variable {s' : Messages} {a : Announcement}

/-- Nothing new is under way when no pipe and no child holds more. -/
lemma InFlight.of_subset (ha : s'.InFlight a) (hfds : s'.fds = s.fds)
    (hforward : s'.forward ⊆ s.forward) (hrunning : ∀ c, s'.running c = true → s.running c = true)
    (hup : ∀ c, (s'.up c).items ⊆ (s.up c).items)
    (htell : ∀ c a, s'.place c = .tell a → s.place c = .tell a)
    (hin : ∀ c, s'.incoming c ⊆ s.incoming c) : s.InFlight a := by
  rcases ha with ⟨fd, c, hfd, ha⟩ | ⟨c, hc, ha⟩ | ⟨fd, ha⟩ | ⟨c, hc, ha⟩
  · exact .inl ⟨fd, c, hfds ▸ hfd, hup c ha⟩
  · exact .inr (.inl ⟨c, hrunning c hc, htell c a ha⟩)
  · exact .inr (.inr (.inl ⟨fd, hforward ha⟩))
  · exact .inr (.inr (.inr ⟨c, hrunning c hc, hin c ha⟩))

/-- What the parent sends around is not announced once more. -/
lemma Good.forwardMem_of_subset (h : s.Good) (hout : ∀ c, s'.outgoing c ⊆ s.outgoing c)
    (ha : (fd, a) ∈ s.forward) :
    a.message.serial < s.serial ∧ (∀ c, ∀ a' ∈ s'.outgoing c, a'.message ≠ a.message) ∧
      ∀ c, s.fds fd = some (.pipe c) → a.message.sender ≠ c ∧ a.message ∉ s.handed c := by
  obtain ⟨hserial, hne, hfd⟩ := h.forwardMem fd a ha
  exact ⟨hserial, fun c a' ha' => hne c a' (hout c ha'), hfd⟩

end Still

/-! ### Where a child is -/

section Place

variable {c' : ℕ} {p : ChildAt}

lemma place_setPlace_self : (s.setPlace c p).place c = p := Function.update_self _ _ _

lemma place_setPlace_of_ne (hne : c' ≠ c) : (s.setPlace c p).place c' = s.place c' :=
  Function.update_of_ne hne _ _

/-- A child that is at another place has announced nothing else. -/
lemma outgoing_setPlace (htell : p.toTell = []) :
    ((s.setPlace c p).outgoing c').Sublist (s.outgoing c') := by
  rw [outgoing, outgoing]
  by_cases hcc : c' = c
  · subst hcc
    rw [place_setPlace_self, htell, List.append_nil]
    exact List.sublist_append_left _ _
  · rw [place_setPlace_of_ne hcc]
    exact .refl _

lemma incoming_setPlace (hemit : p.toEmit = (s.place c).toEmit) :
    (s.setPlace c p).incoming c' = s.incoming c' := by
  rw [incoming, incoming]
  by_cases hcc : c' = c
  · subst hcc
    rw [place_setPlace_self, hemit]
    rfl
  · rw [place_setPlace_of_ne hcc]
    rfl

lemma toTell_ne_nil {a : Announcement} (hp : p = .tell a) : p.toTell ≠ [] := by
  rw [hp]
  exact List.cons_ne_nil _ _

lemma tell_of_setPlace {a : Announcement} (htell : p.toTell = [])
    (hat : (s.setPlace c p).place c' = .tell a) : s.place c' = .tell a := by
  have hne : c' ≠ c := by
    rintro rfl
    rw [place_setPlace_self] at hat
    exact toTell_ne_nil hat htell
  rwa [place_setPlace_of_ne hne] at hat

/-- Nothing else is under way. -/
lemma inFlight_setPlace {a : Announcement} (htell : p.toTell = [])
    (hemit : p.toEmit = (s.place c).toEmit) (ha : (s.setPlace c p).InFlight a) : s.InFlight a :=
  ha.of_subset rfl (fun _ => id) (fun _ => id) (fun _ _ => id) (fun _ _ => tell_of_setPlace htell)
    fun _ _ ha => incoming_setPlace hemit ▸ ha

end Place

/-- The child `c` goes to another place, where it holds nothing new. -/
lemma Good.setPlace {p : ChildAt} (h : s.Good) (hc : s.running c = true) (htell : p.toTell = [])
    (hemit : p.toEmit = (s.place c).toEmit) : (s.setPlace c p).Good := by
  have hout : ∀ c', ((s.setPlace c p).outgoing c').Sublist (s.outgoing c') :=
    fun c' => outgoing_setPlace htell
  refine { h with
    unborn := ?_
    tellUp := fun c' a hc' hat => h.tellUp c' a hc' (tell_of_setPlace htell hat)
    upMem := fun c' a ha => h.upMem c' a ((hout c').subset ha)
    upNodup := fun c' => (h.upNodup c').sublist ((hout c').map _)
    handedEq := ?_
    handedUp := fun c' j a ha => h.handedUp c' j a ((hout c').subset ha)
    forwardMem := fun _ _ ha => h.forwardMem_of_subset (fun c' => (hout c').subset) ha
    segment := fun a ha => h.segment a (inFlight_setPlace htell hemit ha) }
  · intro c' hc'
    obtain ⟨hup, hdown, hplace, hrest⟩ := h.unborn c' hc'
    exact ⟨hup, hdown, (place_setPlace_of_ne (h.ne_of_born_le hc hc')).trans hplace, hrest⟩
  · intro c'
    rw [incoming_setPlace hemit]
    exact h.handedEq c'

/-! ### What a child reads -/

/-- The child `c` has an event of its pipe; the index that it reads is the first one. -/
lemma Good.childWake (h : s.Good) (hc : s.running c = true) (he : (s.down c).event = true)
    (ht : s.downTaken c = false) : (s.childWake c).Good := by
  have hitems : ∀ c', ((s.childWake c).down c').items = (s.down c').items := by
    intro c'
    show (Function.update s.down c (s.down c).wake c').items = _
    by_cases hc' : c' = c
    · subst hc'
      rw [Function.update_self]
      rfl
    · rw [Function.update_of_ne hc']
  have hin : ∀ c', (s.childWake c).incoming c' = s.incoming c' := by
    intro c'
    rw [incoming, hitems]
    rfl
  refine { h with
    unborn := ?_, downLe := ?_, handedEq := ?_
    segment := fun a ha => h.segment a
      (ha.of_subset rfl (fun _ => id) (fun _ => id) (fun _ _ => id) (fun _ _ => id)
        fun c' _ ha => hin c' ▸ ha) }
  · intro c' hc'
    obtain ⟨hup, hdown, hrest⟩ := h.unborn c' hc'
    have hne := h.ne_of_born_le hc hc'
    exact ⟨hup, (Function.update_of_ne hne _ _).trans hdown, hrest⟩
  · intro c' hc'
    have hle := h.downLe c' hc'
    rw [hitems]
    show _ ≤ (Function.update s.down c (s.down c).wake c').event.toNat +
      (Function.update s.downTaken c true c').toNat
    by_cases hcc : c' = c
    · subst hcc
      rw [Function.update_self, Function.update_self]
      rw [he, ht] at hle
      exact hle
    · rw [Function.update_of_ne hcc, Function.update_of_ne hcc]
      exact hle
  · intro c'
    rw [hin]
    exact h.handedEq c'

section Take

variable {c' : ℕ}

lemma childTake_of_ne (hne : c' ≠ c) : (s.childTake c).down c' = s.down c' ∧
    (s.childTake c).downTaken c' = s.downTaken c' ∧ (s.childTake c).place c' = s.place c' :=
  ⟨Function.update_of_ne hne _ _, Function.update_of_ne hne _ _, Function.update_of_ne hne _ _⟩

lemma down_childTake_self : (s.childTake c).down c = (s.down c).read := Function.update_self _ _ _

lemma place_childTake_self :
    (s.childTake c).place c = ((s.down c).items.head?.map ChildAt.emit).getD .loop :=
  Function.update_self _ _ _

lemma toTell_childTake : ((s.childTake c).place c).toTell = [] := by
  rw [place_childTake_self]
  cases (s.down c).items.head? with
  | none => rfl
  | some a => rfl

/-- The index that is read is held until the segment is sent. -/
lemma incoming_childTake (hplace : s.place c = .loop) :
    (s.childTake c).incoming c' = s.incoming c' := by
  rw [incoming, incoming]
  by_cases hcc : c' = c
  · subst hcc
    rw [place_childTake_self, down_childTake_self, hplace]
    show _ ++ (s.down c').items.tail = _
    cases (s.down c').items with
    | nil => rfl
    | cons a rest => rfl
  · obtain ⟨hdown, -, hplace'⟩ := childTake_of_ne (s := s) hcc
    rw [hdown, hplace']

lemma outgoing_childTake (hplace : s.place c = .loop) :
    (s.childTake c).outgoing c' = s.outgoing c' := by
  rw [outgoing, outgoing]
  by_cases hcc : c' = c
  · subst hcc
    rw [toTell_childTake, hplace]
    rfl
  · rw [(childTake_of_ne (s := s) hcc).2.2]
    rfl

end Take

/-- The child `c` reads an index. -/
lemma Good.childTake (h : s.Good) (hc : s.running c = true) (hplace : s.place c = .loop)
    (ht : s.downTaken c = true) : (s.childTake c).Good := by
  have hout : ∀ c', (s.childTake c).outgoing c' = s.outgoing c' := fun _ => outgoing_childTake hplace
  have hin : ∀ c', (s.childTake c).incoming c' = s.incoming c' := fun _ => incoming_childTake hplace
  have htold : ∀ c' a, (s.childTake c).place c' = .tell a → s.place c' = .tell a := by
    intro c' a hat
    have hne : c' ≠ c := by
      rintro rfl
      exact toTell_ne_nil hat toTell_childTake
    rwa [(childTake_of_ne (s := s) hne).2.2] at hat
  refine { h with
    unborn := ?_, downLe := ?_
    tellUp := fun c' a hc' hat => h.tellUp c' a hc' (htold c' a hat)
    upMem := fun c' a ha => h.upMem c' a (hout c' ▸ ha)
    upNodup := fun c' => (hout c').symm ▸ h.upNodup c'
    handedEq := fun c' => (hin c').symm ▸ h.handedEq c'
    handedUp := fun c' j a ha => h.handedUp c' j a (hout c' ▸ ha)
    forwardMem := fun _ _ ha => h.forwardMem_of_subset (fun c' _ ha => hout c' ▸ ha) ha
    segment := fun a ha => h.segment a
      (ha.of_subset rfl (fun _ => id) (fun _ => id) (fun _ _ => id) htold fun c' _ ha => hin c' ▸ ha) }
  · intro c' hc'
    obtain ⟨hup, hdown, hloop, hrest⟩ := h.unborn c' hc'
    obtain ⟨hsame, -, hsame'⟩ := childTake_of_ne (s := s) (h.ne_of_born_le hc hc')
    exact ⟨hup, hsame.trans hdown, hsame'.trans hloop, hrest⟩
  · intro c' hc'
    have hle := h.downLe c' hc'
    by_cases hcc : c' = c
    · subst hcc
      have htaken : (s.childTake c').downTaken c' = false := Function.update_self _ _ _
      rw [ht, Bool.toNat_true] at hle
      rw [down_childTake_self, htaken]
      show (s.down c').items.tail.length ≤ (s.down c').event.toNat + 0
      rw [List.length_tail]
      omega
    · obtain ⟨hsame, hsame', -⟩ := childTake_of_ne (s := s) hcc
      rw [hsame, hsame']
      exact hle

/-- The child `c` sends the whole segment whose index it has read. -/
lemma Good.childEmit {a : Announcement} (h : s.Good) (hc : s.running c = true)
    (hplace : s.place c = .emit a) : (s.childEmit c a bufferSize).Good := by
  have hplaced : ∀ c', c' ≠ c → (s.childEmit c a bufferSize).place c' = s.place c' ∧
      (s.childEmit c a bufferSize).sent c' = s.sent c' := fun c' hne =>
    ⟨Function.update_of_ne hne _ _, Function.update_of_ne hne _ _⟩
  have hself : (s.childEmit c a bufferSize).place c = .loop := Function.update_self _ _ _
  have hsent : (s.childEmit c a bufferSize).sent c =
      s.sent c ++ [(a.message, (s.shareMem a.idx).take bufferSize)] := Function.update_self _ _ _
  have hout : ∀ c', (s.childEmit c a bufferSize).outgoing c' = s.outgoing c' := by
    intro c'
    rw [outgoing, outgoing]
    by_cases hcc : c' = c
    · subst hcc
      rw [hself, hplace]
      rfl
    · rw [(hplaced c' hcc).1]
      rfl
  have hin : ∀ c', (s.childEmit c a bufferSize).incoming c' ⊆ s.incoming c' := by
    intro c'
    rw [incoming, incoming]
    by_cases hcc : c' = c
    · subst hcc
      rw [hself, hplace]
      exact List.subset_append_right _ _
    · rw [(hplaced c' hcc).1]
      exact fun _ => id
  have htold : ∀ c' a', (s.childEmit c a bufferSize).place c' = .tell a' → s.place c' = .tell a' := by
    intro c' a' hat
    have hne : c' ≠ c := by
      rintro rfl
      cases hself.symm.trans hat
    rwa [(hplaced c' hne).1] at hat
  obtain ⟨hblock, hlength⟩ :=
    h.segment a (.inr (.inr (.inr ⟨c, hc, by rw [incoming, hplace]; exact List.mem_cons_self⟩)))
  refine { h with
    unborn := ?_
    tellUp := fun c' a' hc' hat => h.tellUp c' a' hc' (htold c' a' hat)
    upMem := fun c' a' ha => h.upMem c' a' (hout c' ▸ ha)
    upNodup := fun c' => (hout c').symm ▸ h.upNodup c'
    handedEq := ?_
    handedUp := fun c' j a' ha => h.handedUp c' j a' (hout c' ▸ ha)
    forwardMem := fun _ _ ha => h.forwardMem_of_subset (fun c' _ ha => hout c' ▸ ha) ha
    segment := fun a' ha => h.segment a'
      (ha.of_subset rfl (fun _ => id) (fun _ => id) (fun _ _ => id) htold hin)
    bytes := ?_ }
  · intro c' hc'
    obtain ⟨hup, hdown, hloop, hhanded, hsent', hdue⟩ := h.unborn c' hc'
    obtain ⟨hsame, hsame'⟩ := hplaced c' (h.ne_of_born_le hc hc')
    exact ⟨hup, hdown, hsame.trans hloop, hhanded, hsame'.trans hsent', hdue⟩
  · intro c'
    have heq := h.handedEq c'
    rw [incoming] at heq ⊢
    by_cases hcc : c' = c
    · subst hcc
      rw [hplace] at heq
      rw [hself, hsent, List.map_append, List.append_assoc]
      exact heq
    · rw [(hplaced c' hcc).1, (hplaced c' hcc).2]
      exact heq
  · intro c' m b hm
    by_cases hcc : c' = c
    · subst hcc
      rw [hsent, List.mem_append, List.mem_singleton] at hm
      rcases hm with hm | hm
      · exact h.bytes c' m b hm
      · cases hm
        rw [hblock, ← hlength, List.take_length]
    · rw [(hplaced c' hcc).2] at hm
      exact h.bytes c' m b hm

/-- The child `c` leaves, and the parent gets an event of its pipe. -/
lemma Good.leave (h : s.Good) (hc : s.running c = true) : (s.leave c).Good := by
  have hitems : ∀ c', ((s.leave c).up c').items = (s.up c').items := by
    intro c'
    show (Function.update s.up c { s.up c with event := true } c').items = _
    by_cases hc' : c' = c
    · subst hc'
      rw [Function.update_self]
    · rw [Function.update_of_ne hc']
  have hout : ∀ c', (s.leave c).outgoing c' = s.outgoing c' := by
    intro c'
    rw [outgoing, hitems]
    rfl
  have hrunning : ∀ c', (s.leave c).running c' = true → s.running c' = true := by
    intro c' hc'
    by_cases hcc : c' = c
    · subst hcc
      exact hc
    · have hsame : (s.leave c).running c' = s.running c' := Function.update_of_ne hcc _ _
      rw [← hsame]
      exact hc'
  refine { h with
    listed := fun c' hc' => h.listed c' (hrunning c' hc')
    unborn := ?_, upLe := ?_
    downLe := fun c' hc' => h.downLe c' (hrunning c' hc')
    tellUp := fun c' a hc' hat => (hitems c').trans (h.tellUp c' a (hrunning c' hc') hat)
    upMem := fun c' a ha => h.upMem c' a (hout c' ▸ ha)
    upNodup := fun c' => (hout c').symm ▸ h.upNodup c'
    handedUp := fun c' j a ha => h.handedUp c' j a (hout c' ▸ ha)
    forwardMem := fun _ _ ha => h.forwardMem_of_subset (fun c' _ ha => hout c' ▸ ha) ha
    segment := fun a ha => h.segment a
      (ha.of_subset rfl (fun _ => id) hrunning (fun c' _ ha => hitems c' ▸ ha) (fun _ _ => id)
        fun _ _ => id)
    due := ?_ }
  · intro c' hc'
    obtain ⟨hup, hrest⟩ := h.unborn c' hc'
    have hne := h.ne_of_born_le hc hc'
    exact ⟨(Function.update_of_ne hne _ _).trans hup, hrest⟩
  · intro fd c' hfd
    have hle := h.upLe fd c' hfd
    rw [hitems]
    show _ ≤ (Function.update s.up c { s.up c with event := true } c').event.toNat +
      (s.upTaken fd).toNat
    by_cases hcc : c' = c
    · subst hcc
      rw [Function.update_self]
      have hevent := Bool.toNat_le (s.up c').event
      show _ ≤ 1 + _
      omega
    · rw [Function.update_of_ne hcc]
      exact hle
  · intro j hj m hm
    obtain ⟨hsender, hhanded | hforward | ⟨fd, c', a, hfd, ha, heq⟩⟩ := h.due j (hrunning j hj) m hm
    · exact ⟨hsender, .inl hhanded⟩
    · exact ⟨hsender, .inr (.inl hforward)⟩
    · refine ⟨hsender, .inr (.inr ⟨fd, c', a, hfd, ?_, heq⟩)⟩
      rw [hitems]
      exact ha

/-! ### What a child announces -/

/-- The segment of a child whose index is not under way is written. -/
lemma Good.write (h : s.Good) (hfree : ∀ a, s.InFlight a → a.idx ≠ (s.child c).idx) (segment : Bytes) :
    (s.write c segment).Good := by
  refine { h with segment := ?_ }
  intro a ha
  show Function.update s.shareMem (s.child c).idx segment a.idx = _ ∧ _
  rw [Function.update_of_ne (hfree a ha)]
  exact h.segment a ha

/-- Nothing is in the pipe of a child whose index is not under way. -/
lemma Good.up_eq_nil (h : s.Good) (hc : s.running c = true)
    (hfree : ∀ a, s.InFlight a → a.idx ≠ (s.child c).idx) : (s.up c).items = [] := by
  obtain ⟨i, -, hpipe⟩ := h.listed c hc
  rw [List.eq_nil_iff_forall_not_mem]
  intro a ha
  exact hfree a (.inl ⟨_, c, hpipe, ha⟩) (h.upMem c a (List.mem_append_left _ ha)).1

lemma putAt_cleared {bytes : Bytes} : putAt cleared 0 bytes = fill bytes := by
  simp [putAt, cleared, fill]

lemma length_fill {bytes : Bytes} (hlength : bytes.length ≤ bufferSize) :
    (fill bytes).length = bufferSize := by
  rw [fill, List.length_append, List.length_replicate]
  omega

lemma nextMessage_ne {bytes : Bytes} {m : Message} (hlt : m.serial < s.serial) :
    s.nextMessage c bytes ≠ m := by
  rintro rfl
  exact absurd hlt (lt_irrefl _)

section Data

variable {bytes : Bytes} {c' : ℕ}

lemma incoming_childRecv (hplace : s.place c = .recv) :
    (s.childRecv c (.data bytes)).incoming c' = s.incoming c' := by
  rw [incoming, incoming]
  by_cases hcc : c' = c
  · subst hcc
    rw [hplace]
    show (Function.update s.place c' _ c').toEmit ++ _ = _
    rw [Function.update_self]
    rfl
  · show (Function.update s.place c _ c').toEmit ++ _ = _
    rw [Function.update_of_ne hcc]
    rfl

lemma outgoing_childRecv_self (hempty : (s.up c).items = []) :
    (s.childRecv c (.data bytes)).outgoing c = [⟨(s.child c).idx, s.nextMessage c bytes⟩] := by
  show (s.up c).items ++ (Function.update s.place c _ c).toTell = _
  rw [Function.update_self, hempty]
  rfl

lemma outgoing_childRecv_of_ne (hne : c' ≠ c) :
    (s.childRecv c (.data bytes)).outgoing c' = s.outgoing c' := by
  show (s.up c').items ++ (Function.update s.place c _ c').toTell = _
  rw [Function.update_of_ne hne]
  rfl

/-- An announcement that the parent has to read is the new one or an old one. -/
lemma mem_outgoing_childRecv {a : Announcement} (hempty : (s.up c).items = [])
    (ha : a ∈ (s.childRecv c (.data bytes)).outgoing c') :
    c' = c ∧ a = ⟨(s.child c).idx, s.nextMessage c bytes⟩ ∨ a ∈ s.outgoing c' := by
  by_cases hcc : c' = c
  · subst hcc
    rw [outgoing_childRecv_self hempty, List.mem_singleton] at ha
    exact .inl ⟨rfl, ha⟩
  · rw [outgoing_childRecv_of_ne hcc] at ha
    exact .inr ha

lemma place_childRecv_self : (s.childRecv c (.data bytes)).place c =
    .tell ⟨(s.child c).idx, s.nextMessage c bytes⟩ := Function.update_self _ _ _

lemma place_childRecv_of_ne (hne : c' ≠ c) :
    (s.childRecv c (.data bytes)).place c' = s.place c' := Function.update_of_ne hne _ _

end Data

/-- The child `c` receives a message into its segment, which is clear and not under way. -/
lemma Good.childData {bytes : Bytes} (h : s.Good) (hc : s.running c = true)
    (hplace : s.place c = .recv) (hvalid : Recv.Valid (.data bytes))
    (hfree : ∀ a, s.InFlight a → a.idx ≠ (s.child c).idx)
    (hclear : s.shareMem (s.child c).idx = cleared) : (s.childRecv c (.data bytes)).Good := by
  have hempty := h.up_eq_nil hc hfree
  have hwrite := h.write hfree (putAt (s.shareMem (s.child c).idx) 0 bytes)
  refine { h with
    unborn := ?_, tellUp := ?_, upMem := ?_, upNodup := ?_, handedEq := ?_, handedMem := ?_
    handedUp := ?_, forwardMem := ?_, segment := ?_ }
  · intro c' hc'
    obtain ⟨hupc, hdown, hloop, hrest⟩ := h.unborn c' hc'
    exact ⟨hupc, hdown, (place_childRecv_of_ne (h.ne_of_born_le hc hc')).trans hloop, hrest⟩
  · intro c' a hc' hat
    by_cases hcc : c' = c
    · subst hcc
      exact hempty
    · rw [place_childRecv_of_ne hcc] at hat
      exact h.tellUp c' a hc' hat
  · intro c' a ha
    rcases mem_outgoing_childRecv hempty ha with ⟨rfl, rfl⟩ | hold
    · exact ⟨rfl, rfl, Nat.lt_succ_self _⟩
    · obtain ⟨hidx, hsender, hlt⟩ := h.upMem c' a hold
      exact ⟨hidx, hsender, Nat.lt_succ_of_lt hlt⟩
  · intro c'
    by_cases hcc : c' = c
    · subst hcc
      rw [outgoing_childRecv_self hempty]
      exact List.nodup_singleton _
    · rw [outgoing_childRecv_of_ne hcc]
      exact h.upNodup c'
  · intro c'
    rw [incoming_childRecv hplace]
    exact h.handedEq c'
  · intro c' m hm
    obtain ⟨hsender, hlt⟩ := h.handedMem c' m hm
    exact ⟨hsender, Nat.lt_succ_of_lt hlt⟩
  · intro c' j a ha hhanded
    rcases mem_outgoing_childRecv hempty ha with ⟨-, rfl⟩ | hold
    · exact nextMessage_ne (h.handedMem j _ hhanded).2 rfl
    · exact h.handedUp c' j a hold hhanded
  · intro fd a ha
    obtain ⟨hlt, hne, hfd⟩ := h.forwardMem fd a ha
    refine ⟨Nat.lt_succ_of_lt hlt, ?_, hfd⟩
    intro c' a' ha'
    rcases mem_outgoing_childRecv hempty ha' with ⟨-, rfl⟩ | hold
    · exact nextMessage_ne hlt
    · exact hne c' a' hold
  · rintro a (hup | ⟨c', hc', ha⟩ | hforward | ⟨c', hc', ha⟩)
    · exact hwrite.segment a (.inl hup)
    · by_cases hcc : c' = c
      · subst hcc
        rw [place_childRecv_self] at ha
        cases ha
        refine ⟨?_, length_fill (hvalid.2.trans (Nat.sub_le _ _))⟩
        show Function.update s.shareMem (s.child c').idx _ (s.child c').idx = fill bytes
        rw [Function.update_self, hclear, putAt_cleared]
      · rw [place_childRecv_of_ne hcc] at ha
        exact hwrite.segment a (.inr (.inl ⟨c', hc', ha⟩))
    · exact hwrite.segment a (.inr (.inr (.inl hforward)))
    · rw [incoming_childRecv hplace] at ha
      exact hwrite.segment a (.inr (.inr (.inr ⟨c', hc', ha⟩)))

section Announce

variable {c' : ℕ} {a : Announcement}

lemma up_announce_self : (s.announce c a).up c = (s.up c).arrive a := Function.update_self _ _ _

lemma up_announce_of_ne (hne : c' ≠ c) : (s.announce c a).up c' = s.up c' :=
  Function.update_of_ne hne _ _

lemma place_announce_self : (s.announce c a).place c = .loop := Function.update_self _ _ _

lemma place_announce_of_ne (hne : c' ≠ c) : (s.announce c a).place c' = s.place c' :=
  Function.update_of_ne hne _ _

/-- What the child held is in its pipe. -/
lemma outgoing_announce (hplace : s.place c = .tell a) :
    (s.announce c a).outgoing c' = s.outgoing c' := by
  rw [outgoing, outgoing]
  by_cases hcc : c' = c
  · subst hcc
    rw [up_announce_self, place_announce_self, hplace]
    exact List.append_nil _
  · rw [up_announce_of_ne hcc, place_announce_of_ne hcc]

lemma incoming_announce (hplace : s.place c = .tell a) :
    (s.announce c a).incoming c' = s.incoming c' := by
  rw [incoming, incoming]
  by_cases hcc : c' = c
  · subst hcc
    rw [place_announce_self, hplace]
    rfl
  · rw [place_announce_of_ne hcc]
    rfl

lemma mem_due_announce {m : Message} {j : ℕ} (hm : m ∈ (s.announce c a).due j) :
    m ∈ s.due j ∨ j ≠ c ∧ m = a.message := by
  have hm' : m ∈ if j ≠ c ∧ s.running j = true then s.due j ++ [a.message] else s.due j := hm
  split at hm'
  next hj =>
    rw [List.mem_append, List.mem_singleton] at hm'
    exact hm'.imp_right fun heq => ⟨hj.1, heq⟩
  next => exact .inl hm'

end Announce

/-- The child `c` announces the message that its segment holds. -/
lemma Good.announce {a : Announcement} (h : s.Good) (hc : s.running c = true)
    (hplace : s.place c = .tell a) : (s.announce c a).Good := by
  obtain ⟨i, -, hpipe⟩ := h.listed c hc
  have hempty := h.tellUp c a hc hplace
  have hout : ∀ c', (s.announce c a).outgoing c' = s.outgoing c' := fun _ => outgoing_announce hplace
  have hin : ∀ c', (s.announce c a).incoming c' = s.incoming c' := fun _ => incoming_announce hplace
  have hmem : a ∈ ((s.announce c a).up c).items := by
    rw [up_announce_self]
    exact List.mem_append_right _ (List.mem_singleton_self a)
  have hsender : a.message.sender = c := by
    refine (h.upMem c a ?_).2.1
    rw [outgoing, hplace]
    exact List.mem_append_right _ (List.mem_singleton_self a)
  refine { h with
    unborn := ?_, upLe := ?_, tellUp := ?_
    upMem := fun c' a' ha => h.upMem c' a' (hout c' ▸ ha)
    upNodup := fun c' => (hout c').symm ▸ h.upNodup c'
    handedEq := fun c' => (hin c').symm ▸ h.handedEq c'
    handedUp := fun c' j a' ha => h.handedUp c' j a' (hout c' ▸ ha)
    forwardMem := fun _ _ ha => h.forwardMem_of_subset (fun c' _ ha => hout c' ▸ ha) ha
    segment := ?_, due := ?_ }
  · intro c' hc'
    obtain ⟨hupc, hdown, hloop, hhanded, hsent, hdue⟩ := h.unborn c' hc'
    have hne := h.ne_of_born_le hc hc'
    refine ⟨(up_announce_of_ne hne).trans hupc, hdown, (place_announce_of_ne hne).trans hloop, hhanded,
      hsent, ?_⟩
    show (if c' ≠ c ∧ s.running c' = true then _ else s.due c') = []
    rw [if_neg, hdue]
    rintro ⟨-, hrunning⟩
    exact absurd (h.lt_born hrunning) (not_lt.mpr hc')
  · intro fd c' hfd
    by_cases hcc : c' = c
    · subst hcc
      rw [up_announce_self, Descriptor.arrive, hempty]
      exact Nat.le_add_right 1 _
    · rw [up_announce_of_ne hcc]
      exact h.upLe fd c' hfd
  · intro c' a' hc' hat
    have hne : c' ≠ c := by
      rintro rfl
      cases place_announce_self.symm.trans hat
    rw [up_announce_of_ne hne]
    rw [place_announce_of_ne hne] at hat
    exact h.tellUp c' a' hc' hat
  · rintro a' (⟨fd, c', hfd, ha⟩ | ⟨c', hc', hat⟩ | hforward | ⟨c', hc', ha⟩)
    · by_cases hcc : c' = c
      · subst hcc
        rw [up_announce_self, Descriptor.arrive, hempty, List.nil_append, List.mem_singleton] at ha
        exact ha ▸ h.segment a (.inr (.inl ⟨c', hc, hplace⟩))
      · rw [up_announce_of_ne hcc] at ha
        exact h.segment a' (.inl ⟨fd, c', hfd, ha⟩)
    · have hne : c' ≠ c := by
        rintro rfl
        cases place_announce_self.symm.trans hat
      rw [place_announce_of_ne hne] at hat
      exact h.segment a' (.inr (.inl ⟨c', hc', hat⟩))
    · exact h.segment a' (.inr (.inr (.inl hforward)))
    · exact h.segment a' (.inr (.inr (.inr ⟨c', hc', hin c' ▸ ha⟩)))
  · intro j hj m hm
    rcases mem_due_announce hm with hold | ⟨hne, rfl⟩
    · obtain ⟨hsender', hhanded | hforward | ⟨fd, c', a', hfd, ha, heq⟩⟩ := h.due j hj m hold
      · exact ⟨hsender', .inl hhanded⟩
      · exact ⟨hsender', .inr (.inl hforward)⟩
      · refine ⟨hsender', .inr (.inr ⟨fd, c', a', hfd, ?_, heq⟩)⟩
        have hcc : c' ≠ c := by
          rintro rfl
          rw [hempty] at ha
          cases ha
        rw [up_announce_of_ne hcc]
        exact ha
    · exact ⟨hsender.trans_ne (Ne.symm hne), .inr (.inr ⟨_, c, a, hpipe, hmem, rfl⟩)⟩

lemma Good.childTell {a : Announcement} {sent : Bool} (h : s.Good) (hc : s.running c = true)
    (hplace : s.place c = .tell a) : (s.childTell c a sent).Good := by
  rw [Messages.childTell]
  split
  next => exact h.announce hc hplace
  next => exact h.setPlace hc rfl (by rw [hplace]; rfl)

lemma Good.childClear (h : s.Good) (hc : s.running c = true) (hplace : s.place c = .loop)
    (hfree : ∀ a, s.InFlight a → a.idx ≠ (s.child c).idx) : (s.childClear c).Good := by
  have hemit : ChildAt.recv.toEmit = ((s.write c cleared).place c).toEmit := by
    show _ = (s.place c).toEmit
    rw [hplace]
    rfl
  exact (h.write hfree cleared).setPlace hc rfl hemit

lemma Good.childRecv {result : Recv} (h : s.Good) (hc : s.running c = true)
    (hplace : s.place c = .recv) (hvalid : Recv.Valid result)
    (hok : s.Admissible (.childRecv c result)) : (s.childRecv c result).Good := by
  have hemit : ChildAt.loop.toEmit = (s.place c).toEmit := by
    rw [hplace]
    rfl
  cases result with
  | data bytes => exact h.childData hc hplace hvalid hok.1 hok.2
  | again => exact h.setPlace hc rfl hemit
  | stop => exact h.setPlace hc rfl hemit

end LinuxServer.ChatroomMultiprocess.Messages
