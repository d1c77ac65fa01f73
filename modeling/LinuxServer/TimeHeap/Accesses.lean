import LinuxServer.Core.Recorded
import LinuxServer.TimeHeap.Basic

/-!
# The arrays of the time heap

The operations of the time heap with a record of what they do with arrays: which ones they allocate,
and which entries of which ones they read and write. Without the record they are the operations of
`TimeHeap`.
-/

namespace LinuxServer

open Core Core.Recorded

/-- What is done with arrays. -/
inductive ArrayOp
  | alloc (length : ℕ)
  /-- An entry of an array of `length` entries is read or written. -/
  | access (length index : ℕ)

namespace ArrayOp

/-- The index is below the length of the array. -/
def InBounds : ArrayOp → Prop
  | alloc _ => True
  | access length index => index < length

/-- An access below `n` to an array of `length` entries. -/
def Below (length n : ℕ) (op : ArrayOp) : Prop := ∃ i < n, op = .access length i

end ArrayOp

namespace TimeHeap.Accesses

/-- `array[i]` -/
def read (array : List Link) (i : ℕ) : Recorded ArrayOp Link := do
  note (.access array.length i)
  silent array[i]?

/-- `array[i] = l` -/
def write (array : List Link) (i : ℕ) (l : Link) : Recorded ArrayOp (List Link) := do
  note (.access array.length i)
  silent (TimeHeap.write array i l)

/-- The loop that assigns null to the first `n` entries. -/
def clear : ℕ → List Link → Recorded ArrayOp (List Link)
  | 0, array => pure array
  | n + 1, array => do
    let array ← clear n array
    write array n none

/-- `new heap_timer *[n]`, and the loop behind it. -/
def newArray (n : ℕ) : Recorded ArrayOp (List Link) := do
  note (.alloc n)
  clear n (List.replicate n none)

/-- The loop that assigns `src[i]` to `dst[i]` for the first `n` indices. -/
def copy (src : List Link) : ℕ → List Link → Recorded ArrayOp (List Link)
  | 0, dst => pure dst
  | n + 1, dst => do
    let dst ← copy src n dst
    let l ← read src n
    write dst n l

/-- `array[i]->expire` -/
def expireAt (h : TimeHeap) (i : ℕ) : Recorded ArrayOp ℤ := do
  let l ← read h.array i
  silent (h.expireOf l)

/-- The choice between the child at `child` and the one after it. -/
def lesserChild (h : TimeHeap) (child : ℕ) : Recorded ArrayOp ℕ :=
  if child + 1 < h.curSize then do
    let r ← expireAt h (child + 1)
    let l ← expireAt h child
    pure (if r < l then child + 1 else child)
  else
    pure child

/-- The loop of `percolate_down`, and the assignment behind it. -/
def percolateLoop (temp : Link) : ℕ → TimeHeap → ℕ → Recorded ArrayOp TimeHeap
  | 0, _, _ => silent none
  | fuel + 1, h, hole =>
    if 2 * hole + 1 < h.curSize then do
      let child ← lesserChild h (2 * hole + 1)
      let c ← expireAt h child
      let t ← silent (h.expireOf temp)
      if c < t then do
        let l ← read h.array child
        let array ← write h.array hole l
        percolateLoop temp fuel { h with array := array } child
      else do
        let array ← write h.array hole temp
        pure { h with array := array }
    else do
      let array ← write h.array hole temp
      pure { h with array := array }

/-- `percolate_down(hole)` -/
def percolateDown (h : TimeHeap) (hole : ℕ) : Recorded ArrayOp TimeHeap := do
  let temp ← read h.array hole
  percolateLoop temp (h.curSize + 1) h hole

/-- The loop of the second constructor, from `i` down to `0`. -/
def buildLoop : ℕ → TimeHeap → Recorded ArrayOp TimeHeap
  | 0, h => percolateDown h 0
  | i + 1, h => do
    let h ← percolateDown h (i + 1)
    buildLoop i h

/-- `time_heap(init_array, size, capacity)`, where `capacity` may be negative. -/
def ofArray (s : Store HeapTimer) (initArray : List Link) (size : ℕ) (capacity : ℤ) :
    Recorded ArrayOp (Except StdException TimeHeap) :=
  if capacity < size then
    pure (.error .exception)
  else do
    let array ← newArray capacity.toNat
    if size ≠ 0 then do
      let array ← copy initArray size array
      let h ← buildLoop ((size - 1) / 2) ⟨s, array, capacity.toNat, size⟩
      pure (.ok h)
    else
      pure (.ok ⟨s, array, capacity.toNat, size⟩)

/-- `resize()` -/
def resize (h : TimeHeap) : Recorded ArrayOp TimeHeap := do
  let temp ← newArray (2 * h.capacity)
  let temp ← copy h.array h.curSize temp
  pure { h with array := temp, capacity := 2 * h.capacity }

/-- The loop of `add_timer`. -/
def holeLoop (timer : ℕ) : ℕ → TimeHeap → ℕ → Recorded ArrayOp TimeHeap
  | 0, _, _ => silent none
  | fuel + 1, h, hole =>
    if 0 < hole then do
      let parent := (hole - 1) / 2
      let p ← expireAt h parent
      let t ← silent (h.expireOf (some timer))
      if p ≤ t then
        pure h
      else do
        let l ← read h.array parent
        let array ← write h.array hole l
        holeLoop timer fuel { h with array := array } parent
    else
      pure h

/-- `add_timer(timer)` -/
def addTimer (h : TimeHeap) : Link → Recorded ArrayOp TimeHeap
  | none => pure h
  | some timer => do
    let h ← if h.capacity ≤ h.curSize then resize h else pure h
    holeLoop timer (h.curSize + 1) { h with curSize := h.curSize + 1 } h.curSize

/-! ### Without the record -/

variable {h h₁ h₂ : TimeHeap} {s : Store HeapTimer} {src dst array array' initArray : List Link}
  {i n size hole child timer : ℕ} {l : Link}

@[simp] lemma result_read : (read array i).result = array[i]? := by
  simp [read]

@[simp] lemma result_write : (write array i l).result = TimeHeap.write array i l := by
  simp [write]

@[simp] lemma result_copy : ∀ n, (copy src n dst).result = TimeHeap.copy src n dst
  | 0 => rfl
  | n + 1 => by simp [copy, TimeHeap.copy, result_copy n]

@[simp] lemma result_expireAt : (expireAt h i).result = h.expireAt i := by
  simp [expireAt, TimeHeap.expireAt]

@[simp] lemma result_lesserChild : (lesserChild h child).result = h.lesserChild child := by
  simp [lesserChild, TimeHeap.lesserChild]

@[simp] lemma result_percolateLoop (temp : Link) : ∀ (fuel : ℕ) (h : TimeHeap) (hole : ℕ),
    (percolateLoop temp fuel h hole).result = TimeHeap.percolateLoop temp fuel h hole
  | 0, _, _ => rfl
  | fuel + 1, h, hole => by
    simp [percolateLoop, TimeHeap.percolateLoop, result_percolateLoop temp fuel]

@[simp] lemma result_percolateDown : (percolateDown h hole).result = h.percolateDown hole := by
  simp [percolateDown, TimeHeap.percolateDown]

@[simp] lemma result_buildLoop : ∀ i (h : TimeHeap), (buildLoop i h).result = TimeHeap.buildLoop i h
  | 0, _ => result_percolateDown
  | i + 1, h => by simp [buildLoop, TimeHeap.buildLoop, result_buildLoop i]

@[simp] lemma result_holeLoop (timer : ℕ) : ∀ (fuel : ℕ) (h : TimeHeap) (hole : ℕ),
    (holeLoop timer fuel h hole).result = TimeHeap.holeLoop timer fuel h hole
  | 0, _, _ => rfl
  | fuel + 1, h, hole => by
    simp [holeLoop, TimeHeap.holeLoop, result_holeLoop timer fuel]

lemma result_clear : ∀ {k}, k ≤ n →
    (clear k (List.replicate n none)).result = some (List.replicate n none)
  | 0, _ => rfl
  | k + 1, hk => by
    have hlt : k < (List.replicate n (none : Link)).length := by rwa [List.length_replicate]
    rw [clear, result_bind, result_clear (Nat.le_of_succ_le hk), Option.bind_some, result_write,
      TimeHeap.write, if_pos hlt, List.set_replicate_self]

@[simp] lemma result_newArray : (newArray n).result = some (List.replicate n none) := by
  rw [newArray, result_bind, result_note, Option.bind_some, result_clear le_rfl]

@[simp] lemma result_resize : (resize h).result = h.resize := by
  simp [resize, TimeHeap.resize]

@[simp] lemma result_addTimer : (addTimer h l).result = h.addTimer l := by
  cases l with
  | none => rfl
  | some timer => simp [addTimer, TimeHeap.addTimer]

lemma result_ofArray {capacity : ℕ} :
    (ofArray s initArray size capacity).result = TimeHeap.ofArray s initArray size capacity := by
  simp [ofArray, TimeHeap.ofArray]

/-! ### What stays as it is -/

/-- The array is as long as before, and as many entries count. -/
structure Keeps (h h' : TimeHeap) : Prop where
  length : h'.array.length = h.array.length
  capacity : h'.capacity = h.capacity
  curSize : h'.curSize = h.curSize

lemma Keeps.refl : Keeps h h := ⟨rfl, rfl, rfl⟩

lemma Keeps.trans (hk : Keeps h h₁) (hk' : Keeps h₁ h₂) : Keeps h h₂ :=
  ⟨hk'.length.trans hk.length, hk'.capacity.trans hk.capacity, hk'.curSize.trans hk.curSize⟩

lemma length_of_write (hw : TimeHeap.write array i l = some array') :
    array'.length = array.length := by
  rw [TimeHeap.write] at hw
  split at hw
  next =>
    cases hw
    exact List.length_set
  next => cases hw

lemma keeps_of_write (hw : TimeHeap.write h.array i l = some array') :
    Keeps h { h with array := array' } :=
  ⟨length_of_write hw, rfl, rfl⟩

lemma keeps_percolateLoop (temp : Link) : ∀ {fuel : ℕ} {h : TimeHeap} {hole : ℕ},
    TimeHeap.percolateLoop temp fuel h hole = some h₁ → Keeps h h₁
  | fuel + 1, h, hole, hh => by
    have hend : (do
        let array ← TimeHeap.write h.array hole temp
        some { h with array := array }) = some h₁ → Keeps h h₁ := by
      intro hlast
      obtain ⟨array', hw, heq⟩ := Option.bind_eq_some_iff.mp hlast
      cases heq
      exact keeps_of_write hw
    rw [TimeHeap.percolateLoop] at hh
    split at hh
    next =>
      obtain ⟨child, -, hh⟩ := Option.bind_eq_some_iff.mp hh
      obtain ⟨c, -, hh⟩ := Option.bind_eq_some_iff.mp hh
      obtain ⟨t, -, hh⟩ := Option.bind_eq_some_iff.mp hh
      split at hh
      next =>
        obtain ⟨l, -, hh⟩ := Option.bind_eq_some_iff.mp hh
        obtain ⟨array', hw, hh⟩ := Option.bind_eq_some_iff.mp hh
        exact (keeps_of_write hw).trans (keeps_percolateLoop temp hh)
      next => exact hend hh
    next => exact hend hh

lemma keeps_percolateDown (hh : h.percolateDown hole = some h₁) : Keeps h h₁ := by
  obtain ⟨temp, -, hh⟩ := Option.bind_eq_some_iff.mp hh
  exact keeps_percolateLoop temp hh

lemma keeps_buildLoop : ∀ {i : ℕ} {h : TimeHeap}, TimeHeap.buildLoop i h = some h₁ → Keeps h h₁
  | 0, _, hh => keeps_percolateDown hh
  | i + 1, h, hh => by
    obtain ⟨h₂, hh₂, hh⟩ := Option.bind_eq_some_iff.mp hh
    exact (keeps_percolateDown hh₂).trans (keeps_buildLoop hh)

lemma keeps_holeLoop (timer : ℕ) : ∀ {fuel : ℕ} {h : TimeHeap} {hole : ℕ},
    TimeHeap.holeLoop timer fuel h hole = some h₁ → Keeps h h₁
  | fuel + 1, h, hole, hh => by
    rw [TimeHeap.holeLoop] at hh
    split at hh
    next =>
      obtain ⟨p, -, hh⟩ := Option.bind_eq_some_iff.mp hh
      obtain ⟨t, -, hh⟩ := Option.bind_eq_some_iff.mp hh
      split at hh
      next =>
        cases hh
        exact .refl
      next =>
        obtain ⟨l, -, hh⟩ := Option.bind_eq_some_iff.mp hh
        obtain ⟨array', hw, hh⟩ := Option.bind_eq_some_iff.mp hh
        exact (keeps_of_write hw).trans (keeps_holeLoop timer hh)
    next =>
      cases hh
      exact .refl

/-! ### Where `percolate_down` reads and writes -/

lemma records_read (hi : i < n) : (read array i).Records (ArrayOp.Below array.length n) :=
  (records_note ⟨i, hi, rfl⟩).bind fun _ _ => records_silent

lemma records_write (hi : i < n) : (write array i l).Records (ArrayOp.Below array.length n) :=
  (records_note ⟨i, hi, rfl⟩).bind fun _ _ => records_silent

lemma records_expireAt (hi : i < n) : (expireAt h i).Records (ArrayOp.Below h.array.length n) :=
  (records_read hi).bind fun _ _ => records_silent

lemma records_lesserChild (hchild : child < h.curSize) :
    (lesserChild h child).Records (ArrayOp.Below h.array.length h.curSize) := by
  rw [lesserChild]
  split
  next hlt =>
    refine (records_expireAt hlt).bind fun _ _ => ?_
    exact (records_expireAt hchild).bind fun _ _ => records_pure
  next => exact records_pure

/-- The child that is chosen counts. -/
lemma lesserChild_lt {c : ℕ} (hchild : child < h.curSize)
    (hc : (lesserChild h child).result = some c) : c < h.curSize := by
  rw [result_lesserChild, TimeHeap.lesserChild] at hc
  split at hc
  next hlt =>
    obtain ⟨r, -, hc⟩ := Option.bind_eq_some_iff.mp hc
    obtain ⟨l, -, hc⟩ := Option.bind_eq_some_iff.mp hc
    cases hc
    split
    · exact hlt
    · exact hchild
  next =>
    cases hc
    exact hchild

/-- The loop stays below `cur_size`. -/
lemma records_percolateLoop (temp : Link) : ∀ (fuel : ℕ) (h : TimeHeap) (hole : ℕ), hole < h.curSize →
    (percolateLoop temp fuel h hole).Records (ArrayOp.Below h.array.length h.curSize)
  | 0, _, _, _ => records_silent
  | fuel + 1, h, hole, hlt => by
    have hwrite : (do
        let array ← write h.array hole temp
        pure { h with array := array }).Records (ArrayOp.Below h.array.length h.curSize) :=
      (records_write hlt).bind fun _ _ => records_pure
    rw [percolateLoop]
    split
    next hchild =>
      refine (records_lesserChild hchild).bind fun c hc => ?_
      have hcn := lesserChild_lt hchild hc
      refine (records_expireAt hcn).bind fun _ _ => records_silent.bind fun _ _ => ?_
      split
      next =>
        refine (records_read hcn).bind fun _ _ => (records_write hlt).bind fun array hw => ?_
        have hrest := records_percolateLoop temp fuel { h with array := array } c hcn
        rw [result_write] at hw
        rwa [(keeps_of_write hw).length] at hrest
      next => exact hwrite
    next => exact hwrite

lemma records_percolateDown (hlt : hole < h.curSize) :
    (percolateDown h hole).Records (ArrayOp.Below h.array.length h.curSize) :=
  (records_read hlt).bind fun temp _ => records_percolateLoop temp _ h hole hlt

lemma records_buildLoop : ∀ (i : ℕ) (h : TimeHeap), i < h.curSize →
    (buildLoop i h).Records (ArrayOp.Below h.array.length h.curSize)
  | 0, _, hi => records_percolateDown hi
  | i + 1, h, hi => by
    refine (records_percolateDown hi).bind fun h₁ hh₁ => ?_
    rw [result_percolateDown] at hh₁
    have hk := keeps_percolateDown hh₁
    rw [← hk.length, ← hk.curSize]
    exact records_buildLoop i h₁ (by rw [hk.curSize]; omega)

end TimeHeap.Accesses

end LinuxServer
