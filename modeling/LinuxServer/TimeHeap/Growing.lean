import LinuxServer.TimeHeap.Accesses
import LinuxServer.TimeHeap.Runs

/-!
# How a heap grows

`add_timer` calls `resize` when the array is full, and `resize` doubles the capacity. Of a positive
capacity that makes room for the new timer, and every index stays below the length of its array.
Twice zero is zero.
-/

namespace LinuxServer

open Core Core.Recorded

namespace TimeHeap

variable {h h' : TimeHeap} {s : Store HeapTimer} {c : Ctor} {src dst : List Link} {adds : List ℕ}
  {n timer : ℕ}

/-- The array has `capacity` entries, and no more than those count. -/
structure Within (h : TimeHeap) : Prop where
  curSize : h.curSize ≤ h.capacity
  length : h.array.length = h.capacity

/-- The heap is within its array before the first call and after every call that returns, and every
call reads and writes within the arrays. -/
structure StaysWithin (adds : List ℕ) (h : TimeHeap) : Prop where
  within : ∀ before h', before <+: adds → addTimers before h = some h' → h'.Within
  inBounds : ∀ before timer h', before ++ [timer] <+: adds → addTimers before h = some h' →
    (Accesses.addTimer h' (some timer)).Records ArrayOp.InBounds

/-- The capacity that the constructor is given. -/
def Ctor.capacity : Ctor → ℕ
  | .ofCapacity cap => cap
  | .ofArray _ _ capacity => capacity

/-! ### Lengths -/

lemma length_of_copy : ∀ {n : ℕ} {array : List Link}, copy src n dst = some array →
    array.length = dst.length
  | 0, _, hc => by
    cases hc
    rfl
  | n + 1, _, hc => by
    obtain ⟨dst', hdst', hc⟩ := Option.bind_eq_some_iff.mp hc
    obtain ⟨l, -, hw⟩ := Option.bind_eq_some_iff.mp hc
    exact (Accesses.length_of_write hw).trans (length_of_copy hdst')

/-- A new heap is within its array. -/
lemma Ctor.run_room (hrun : c.run s = some (.ok h)) : h.Within ∧ h.capacity = c.capacity := by
  cases c with
  | ofCapacity cap =>
    cases hrun
    exact ⟨⟨Nat.zero_le _, List.length_replicate⟩, rfl⟩
  | ofArray initArray size capacity =>
    have hrun' : TimeHeap.ofArray s initArray size capacity = some (.ok h) := hrun
    rw [TimeHeap.ofArray] at hrun'
    split at hrun'
    next => cases hrun'
    next hcap =>
      dsimp only at hrun'
      split at hrun'
      next =>
        obtain ⟨array, hcopy, hrun'⟩ := Option.bind_eq_some_iff.mp hrun'
        obtain ⟨h₁, hbuild, heq⟩ := Option.bind_eq_some_iff.mp hrun'
        cases heq
        have hk := Accesses.keeps_buildLoop hbuild
        have hlength := length_of_copy hcopy
        rw [List.length_replicate] at hlength
        exact ⟨⟨by rw [hk.curSize, hk.capacity]; exact not_lt.mp hcap,
          by rw [hk.length, hk.capacity]; exact hlength⟩, hk.capacity⟩
      next =>
        cases hrun'
        exact ⟨⟨not_lt.mp hcap, List.length_replicate⟩, rfl⟩

/-! ### What a call reads and writes -/

lemma records_inBounds {α : Type} {m : Recorded ArrayOp α} (hm : m.Records (ArrayOp.Below n n)) :
    m.Records ArrayOp.InBounds := by
  refine hm.mono ?_
  rintro _ ⟨i, hi, rfl⟩
  exact hi

lemma records_clear : ∀ {k}, k ≤ n →
    (Accesses.clear k (List.replicate n none)).Records ArrayOp.InBounds
  | 0, _ => records_pure
  | k + 1, hk => by
    refine (records_clear (Nat.le_of_succ_le hk)).bind fun array harray => ?_
    rw [Accesses.result_clear (Nat.le_of_succ_le hk)] at harray
    cases harray
    exact records_inBounds (Accesses.records_write (by rwa [List.length_replicate]))

lemma records_copy : ∀ {n}, n ≤ src.length → n ≤ dst.length →
    (Accesses.copy src n dst).Records ArrayOp.InBounds
  | 0, _, _ => records_pure
  | n + 1, hsrc, hdst => by
    have hfirst := records_copy (Nat.le_of_succ_le hsrc) (Nat.le_of_succ_le hdst)
    refine hfirst.bind fun array harray => ?_
    rw [Accesses.result_copy] at harray
    refine (records_inBounds (Accesses.records_read hsrc)).bind fun _ _ => ?_
    exact records_inBounds (Accesses.records_write (by rwa [length_of_copy harray]))

lemma records_resize (hw : h.Within) : (Accesses.resize h).Records ArrayOp.InBounds := by
  have hnew : (Accesses.newArray (2 * h.capacity)).Records ArrayOp.InBounds :=
    (records_note trivial).bind fun _ _ => records_clear le_rfl
  refine hnew.bind fun temp htemp => ?_
  rw [Accesses.result_newArray] at htemp
  cases htemp
  refine (records_copy ?_ ?_).bind fun _ _ => records_pure
  · rw [hw.length]
    exact hw.curSize
  · have hle := hw.curSize
    rw [List.length_replicate]
    omega

lemma records_holeLoop (timer : ℕ) : ∀ (fuel : ℕ) (h : TimeHeap) (hole : ℕ), hole < h.array.length →
    (Accesses.holeLoop timer fuel h hole).Records ArrayOp.InBounds
  | 0, _, _, _ => records_silent
  | fuel + 1, h, hole, hlt => by
    rw [Accesses.holeLoop]
    split
    next =>
      have hparent : (hole - 1) / 2 < h.array.length := by omega
      refine (records_inBounds (Accesses.records_expireAt hparent)).bind fun _ _ => ?_
      refine records_silent.bind fun _ _ => ?_
      split
      next => exact records_pure
      next =>
        refine (records_inBounds (Accesses.records_read hparent)).bind fun _ _ => ?_
        refine (records_inBounds (Accesses.records_write hlt)).bind fun array hw => ?_
        rw [Accesses.result_write] at hw
        exact records_holeLoop timer fuel _ _ (by rwa [Accesses.length_of_write hw])
    next => exact records_pure

/-! ### A call -/

lemma addTimer_eq : h.addTimer (some timer) =
    (if h.capacity ≤ h.curSize then h.resize else some h).bind fun h =>
      holeLoop timer (h.curSize + 1) { h with curSize := h.curSize + 1 } h.curSize := by
  rw [addTimer]
  split <;> rfl

lemma addTimer_eq_recorded : Accesses.addTimer h (some timer) =
    (if h.capacity ≤ h.curSize then Accesses.resize h else pure h) >>= fun h =>
      Accesses.holeLoop timer (h.curSize + 1) { h with curSize := h.curSize + 1 } h.curSize := by
  rw [Accesses.addTimer]
  split <;> rfl

/-- There is room for one more timer. -/
structure Roomy (h : TimeHeap) : Prop where
  curSize : h.curSize < h.capacity
  length : h.array.length = h.capacity

/-- `resize` doubles a positive capacity. -/
lemma Within.resize (hw : h.Within) (hpos : 0 < h.capacity) (hr : h.resize = some h') :
    h'.Roomy ∧ h'.curSize = h.curSize := by
  obtain ⟨temp, hcopy, heq⟩ := Option.bind_eq_some_iff.mp hr
  cases heq
  have hle := hw.curSize
  refine ⟨⟨?_, ?_⟩, rfl⟩
  · show h.curSize < 2 * h.capacity
    omega
  · rw [length_of_copy hcopy, List.length_replicate]

lemma Within.makeRoom (hw : h.Within) (hpos : 0 < h.capacity)
    (hr : (if h.capacity ≤ h.curSize then h.resize else some h) = some h') :
    h'.Roomy ∧ h'.curSize = h.curSize := by
  split at hr
  next => exact hw.resize hpos hr
  next hlt =>
    cases hr
    exact ⟨⟨not_le.mp hlt, hw.length⟩, rfl⟩

lemma Within.addTimer (hw : h.Within) (hpos : 0 < h.capacity)
    (ha : h.addTimer (some timer) = some h') : h'.Within ∧ 0 < h'.capacity := by
  rw [addTimer_eq] at ha
  obtain ⟨h₁, hr, hloop⟩ := Option.bind_eq_some_iff.mp ha
  obtain ⟨hroomy, -⟩ := hw.makeRoom hpos hr
  have hk := Accesses.keeps_holeLoop timer hloop
  have hlt := hroomy.curSize
  refine ⟨⟨?_, ?_⟩, ?_⟩
  · rw [hk.curSize, hk.capacity]
    exact hlt
  · rw [hk.length, hk.capacity]
    exact hroomy.length
  · rw [hk.capacity]
    exact Nat.zero_lt_of_lt hlt

lemma Within.records_addTimer (hw : h.Within) (hpos : 0 < h.capacity) :
    (Accesses.addTimer h (some timer)).Records ArrayOp.InBounds := by
  rw [addTimer_eq_recorded]
  refine Records.bind ?_ fun h₁ hr => ?_
  · split
    next => exact records_resize hw
    next => exact records_pure
  · rw [result_ite, Accesses.result_resize, result_pure] at hr
    obtain ⟨hroomy, -⟩ := hw.makeRoom hpos hr
    refine records_holeLoop timer _ _ _ ?_
    show h₁.curSize < h₁.array.length
    rw [hroomy.length]
    exact hroomy.curSize

/-- With a capacity of 0 the first timer counts, and there is no place for it. -/
lemma Within.addTimer_zero (hw : h.Within) (hzero : h.capacity = 0) :
    ∃ h', h.addTimer (some timer) = some h' ∧ ¬ h'.Within := by
  have hcur : h.curSize = 0 := Nat.le_zero.mp (hzero ▸ hw.curSize)
  refine ⟨{ h with array := [], curSize := 1 }, ?_, fun hw' => ?_⟩
  · rw [addTimer_eq, if_pos (hzero ▸ Nat.zero_le _), TimeHeap.resize, hcur, hzero]
    rfl
  · have hle : 1 ≤ h.capacity := hw'.curSize
    omega

/-! ### Runs -/

lemma Within.addTimers : ∀ {adds : List ℕ} {h : TimeHeap}, h.Within → 0 < h.capacity →
    TimeHeap.addTimers adds h = some h' → h'.Within ∧ 0 < h'.capacity
  | [], _, hw, hpos, ha => by
    cases ha
    exact ⟨hw, hpos⟩
  | p :: ps, h, hw, hpos, ha => by
    obtain ⟨h₁, hstep, hrest⟩ := Option.bind_eq_some_iff.mp ha
    obtain ⟨hw₁, hpos₁⟩ := hw.addTimer hpos hstep
    exact hw₁.addTimers hpos₁ hrest

/-- A heap built by either constructor stays within its array through a sequence of `add_timer` calls
if and only if it was built with a positive capacity, or nothing is added. -/
theorem addTimers_staysWithin_iff (hrun : c.run s = some (.ok h)) :
    StaysWithin adds h ↔ 0 < c.capacity ∨ adds = [] := by
  obtain ⟨hw, hcap⟩ := Ctor.run_room hrun
  rw [← hcap]
  constructor
  · intro hstays
    by_contra hnot
    obtain ⟨hzero, hne⟩ := not_or.mp hnot
    obtain ⟨p, ps, rfl⟩ := List.exists_cons_of_ne_nil hne
    obtain ⟨h', hadd, hnot'⟩ : ∃ h', h.addTimer (some p) = some h' ∧ ¬ h'.Within :=
      hw.addTimer_zero (Nat.eq_zero_of_not_pos hzero)
    refine hnot' (hstays.within [p] h' ⟨ps, rfl⟩ ?_)
    rw [TimeHeap.addTimers, hadd]
    rfl
  · rintro (hpos | rfl)
    · exact ⟨fun before h' _ ha => (hw.addTimers hpos ha).1, fun before timer h' _ ha =>
        (hw.addTimers hpos ha).1.records_addTimer (hw.addTimers hpos ha).2⟩
    · refine ⟨fun before h' hpre ha => ?_, fun before timer h' hpre _ => ?_⟩
      · obtain rfl := List.prefix_nil.mp hpre
        cases ha
        exact hw
      · simp at hpre

/-- The capacity is doubled in the first call and in the second one; the third one has room. -/
theorem addTimers_staysWithin_three :
    StaysWithin [1, 1, 1] ⟨(Store.empty.new ⟨5⟩).new ⟨9⟩, [some 0], 1, 1⟩ :=
  (addTimers_staysWithin_iff (c := .ofArray [some 0] 1 1) rfl).mpr (.inl (by decide))

/-- The first timer counts in an array without entries, and the next call reads there. -/
theorem addTimers_notStaysWithin :
    ∃ h h', (Ctor.ofCapacity 0).run (Store.empty.new ⟨5⟩) = some (.ok h) ∧
      h.addTimer (some 0) = some h' ∧ h'.curSize = 1 ∧ h'.capacity = 0 ∧
      .access 0 0 ∈ (Accesses.addTimer h' (some 0)).record ∧ ¬ StaysWithin [0] h := by
  refine ⟨_, _, rfl, rfl, rfl, rfl, ?_, fun hstays => ?_⟩
  · exact List.mem_cons_of_mem _ List.mem_cons_self
  · have hle : 1 ≤ 0 := (hstays.within [0] _ ⟨[], rfl⟩ rfl).curSize
    exact absurd hle (by decide)

end TimeHeap

end LinuxServer
