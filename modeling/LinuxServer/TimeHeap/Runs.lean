import LinuxServer.TimeHeap.Properties

/-!
# Runs of the time heap

Both constructors build a heap of the timers they are given. No `add_timer` adds its timer to it:
the loop ends with the hole found and the timer is not assigned to it. So the heap holds what it
should exactly as long as nothing was added.
-/

namespace LinuxServer

open Core Core.MinHeap

namespace TimeHeap

/-- The calls that make a heap. -/
inductive Ctor
  | ofCapacity (cap : ℕ)
  | ofArray (initArray : List Link) (size capacity : ℕ)

def Ctor.run (s : Store HeapTimer) : Ctor → Option (Except StdException TimeHeap)
  | .ofCapacity cap => some (.ok (TimeHeap.ofCapacity s cap))
  | .ofArray initArray size capacity => TimeHeap.ofArray s initArray size capacity

/-- The timers a constructor is given are those of `init_array`, none of them null. -/
def Ctor.Gives : Ctor → List ℕ → Prop
  | .ofCapacity _, timers => timers = []
  | .ofArray initArray size capacity, timers =>
    size ≤ capacity ∧ timers.length = size ∧ initArray.take size = timers.map some

/-- A sequence of `add_timer` calls. -/
def addTimers : List ℕ → TimeHeap → Option TimeHeap
  | [], h => some h
  | p :: ps, h => do
    let h ← h.addTimer (some p)
    addTimers ps h

variable {s : Store HeapTimer} {c : Ctor} {h h' : TimeHeap} {timers adds : List ℕ} {l : Link}
  {i n hole timer : ℕ} {src dst array array' : List Link}

/-! ### The constructors -/

lemma isHeapOf_empty (hcur : h.curSize = 0) : h.IsHeapOf [] := by
  refine .of_ordered (ordered_of_le (by omega)) (fun i hi => by omega) hcur ?_ List.nodup_nil
  simp [hcur]

/-- A new heap is a heap of the timers its constructor was given. -/
theorem Ctor.run_spec (hgives : c.Gives timers) (hnd : timers.Nodup)
    (hlive : ∀ p ∈ timers, ∃ t, s.cell p = some t) :
    ∃ h, c.run s = some (.ok h) ∧ h.IsHeapOf timers ∧ ∀ l ∈ h.array, l = none ∨ l ∈ timers.map some := by
  cases c with
  | ofCapacity cap =>
    obtain rfl : timers = [] := hgives
    exact ⟨_, rfl, isHeapOf_empty rfl, fun l hl => .inl (List.eq_of_mem_replicate hl)⟩
  | ofArray a size capacity =>
    obtain ⟨hcap, rfl, htake⟩ := hgives
    obtain ⟨h, hh, hs⟩ := ofArray_spec htake hcap hlive
    have hperm : (h.array.take h.curSize).Perm (timers.map some) := by
      rw [hs.curSize]
      exact hs.perm_take
    have hfull := hs.full (full_filled hlive)
    refine ⟨h, hh, .of_ordered (hs.curSize ▸ hs.ordered) hfull hs.curSize hperm hnd, ?_⟩
    intro l hl
    rcases List.mem_append.mp (hs.rearranged.perm.subset hl) with hl | hl
    · exact .inr hl
    · exact .inl (List.eq_of_mem_replicate hl)

/-! ### What `add_timer` stores -/

lemma mem_of_write (hw : write array i l = some array') {x : Link} (hx : x ∈ array') :
    x ∈ array ∨ x = l := by
  rw [write] at hw
  split at hw
  next =>
    cases hw
    exact List.mem_or_eq_of_mem_set hx
  next => cases hw

lemma mem_of_copy : ∀ {n : ℕ} {array : List Link}, copy src n dst = some array →
    ∀ x ∈ array, x ∈ dst ∨ x ∈ src
  | 0, _, hc, x, hx => .inl (Option.some.inj hc ▸ hx)
  | n + 1, _, hc, x, hx => by
    obtain ⟨d, hd, hrest⟩ := Option.bind_eq_some_iff.mp hc
    obtain ⟨l, hl, hw⟩ := Option.bind_eq_some_iff.mp hrest
    rcases mem_of_write hw hx with hx | rfl
    · exact mem_of_copy hd x hx
    · exact .inr (List.mem_of_getElem? hl)

lemma mem_of_resize (hr : h.resize = some h') {x : Link} (hx : x ∈ h'.array) :
    x = none ∨ x ∈ h.array := by
  obtain ⟨d, hd, hrest⟩ := Option.bind_eq_some_iff.mp hr
  cases hrest
  rcases mem_of_copy hd x hx with hx | hx
  · exact .inl (List.eq_of_mem_replicate hx)
  · exact .inr hx

lemma mem_of_holeLoop : ∀ {fuel : ℕ} {h : TimeHeap} {hole : ℕ}, holeLoop timer fuel h hole = some h' →
    ∀ x ∈ h'.array, x ∈ h.array
  | fuel + 1, h, hole, hh, x, hx => by
    rw [holeLoop] at hh
    split at hh
    next =>
      obtain ⟨p, -, hh⟩ := Option.bind_eq_some_iff.mp hh
      obtain ⟨t, -, hh⟩ := Option.bind_eq_some_iff.mp hh
      split at hh
      next =>
        cases hh
        exact hx
      next =>
        obtain ⟨l, hl, hh⟩ := Option.bind_eq_some_iff.mp hh
        obtain ⟨array, hw, hh⟩ := Option.bind_eq_some_iff.mp hh
        rcases mem_of_write hw (mem_of_holeLoop hh x hx) with hx | rfl
        · exact hx
        · exact List.mem_of_getElem? hl
    next =>
      cases hh
      exact hx

/-- After `add_timer` the array holds only what it held before. -/
theorem mem_of_addTimer (ha : h.addTimer (some timer) = some h') {x : Link} (hx : x ∈ h'.array) :
    x = none ∨ x ∈ h.array := by
  rw [addTimer] at ha
  split at ha
  next =>
    obtain ⟨h₁, hr, hloop⟩ := Option.bind_eq_some_iff.mp ha
    exact mem_of_resize hr (mem_of_holeLoop hloop x hx)
  next => exact .inr (mem_of_holeLoop ha x hx)

lemma mem_of_addTimers : ∀ {adds : List ℕ} {h : TimeHeap}, addTimers adds h = some h' →
    ∀ x ∈ h'.array, x = none ∨ x ∈ h.array
  | [], _, ha, x, hx => .inr (Option.some.inj ha ▸ hx)
  | p :: ps, h, ha, x, hx => by
    obtain ⟨h₁, h₁eq, hrest⟩ := Option.bind_eq_some_iff.mp ha
    rcases mem_of_addTimers hrest x hx with rfl | hx
    · exact .inl rfl
    · exact mem_of_addTimer h₁eq hx

/-- A heap built by either constructor is, after a sequence of `add_timer` calls with fresh timers, a
heap of the initial timers and the added ones if and only if the sequence is empty. -/
theorem addTimers_isHeapOf_iff (hgives : c.Gives timers) (hnd : (timers ++ adds).Nodup)
    (hlive : ∀ p ∈ timers ++ adds, ∃ t, s.cell p = some t) :
    (∃ h h', c.run s = some (.ok h) ∧ addTimers adds h = some h' ∧ h'.IsHeapOf (timers ++ adds)) ↔
      adds = [] := by
  obtain ⟨hnd₁, -, hdisj⟩ := List.nodup_append.mp hnd
  obtain ⟨h, hh, hheap, hmem⟩ := Ctor.run_spec hgives hnd₁ fun p hp =>
    hlive p (List.mem_append_left _ hp)
  constructor
  · rintro ⟨h₁, h', hh₁, hadd, hheap'⟩
    cases hh.symm.trans hh₁
    by_contra hne
    obtain ⟨p, hp⟩ := List.exists_mem_of_ne_nil adds hne
    have hp' : some p ∈ h'.array := List.mem_of_mem_take
      (hheap'.entries.symm.subset (List.mem_map_of_mem (List.mem_append_right _ hp)))
    rcases mem_of_addTimers hadd _ hp' with hnone | hin
    · cases hnone
    rcases hmem _ hin with hnone | hin
    · cases hnone
    · exact hdisj p (by simpa using hin) p hp rfl
  · rintro rfl
    exact ⟨h, h, hh, rfl, by rwa [List.append_nil]⟩

/-- Two timers, the later one first: the constructor exchanges them. -/
theorem addTimers_isHeapOf_two :
    ∃ h h' : TimeHeap, (Ctor.ofArray [some 0, some 1] 2 3).run ((Store.empty.new ⟨9⟩).new ⟨5⟩) =
      some (.ok h) ∧ addTimers [] h = some h' ∧ h'.IsHeapOf ([0, 1] ++ []) :=
  (addTimers_isHeapOf_iff (c := .ofArray [some 0, some 1] 2 3) ⟨by decide, rfl, rfl⟩ (by decide)
    (by simp [Store.empty])).mpr rfl

/-- One timer is added to an empty heap: the heap counts one entry, and the entry is null. -/
theorem addTimer_loses_timer :
    ∃ h' : TimeHeap, addTimers [0] (ofCapacity (Store.empty.new ⟨5⟩) 1) = some h' ∧
      h'.curSize = 1 ∧ h'.array = [none] ∧ ¬ h'.IsHeapOf [0] :=
  ⟨_, rfl, rfl, rfl, fun hh => absurd (hh.entries.subset List.mem_cons_self) (by decide)⟩

end TimeHeap

end LinuxServer
