import LinuxServer.Core.Store

/-!
# The time heap

`time_heap` of `min_heap.cpp`: an array of pointers to timers, of which the first `curSize` count.
An operation is `none` where the C++ code would read or write outside the array or follow a
null or dangling pointer; a constructor may also throw. An `int` is not bounded: `2 * hole + 1` would
overflow from 2^30 entries on.
-/

namespace LinuxServer

open Core

/-- What the heap reads of a `heap_timer`. -/
structure HeapTimer where
  expire : ℤ

/-- `std::exception` -/
inductive StdException
  | exception

/-- `time_heap`, with the timers that exist. -/
structure TimeHeap where
  store : Store HeapTimer
  array : List Link
  capacity : ℕ
  curSize : ℕ

namespace TimeHeap

/-- `array[i] = l` -/
def write (array : List Link) (i : ℕ) (l : Link) : Option (List Link) :=
  if i < array.length then some (array.set i l) else none

/-- The loop that assigns `src[i]` to `dst[i]` for the first `n` indices. -/
def copy (src : List Link) : ℕ → List Link → Option (List Link)
  | 0, dst => some dst
  | n + 1, dst => do
    let dst ← copy src n dst
    let l ← src[n]?
    write dst n l

/-- `l->expire` -/
def expireOf (h : TimeHeap) (l : Link) : Option ℤ := (h.store.deref l).map HeapTimer.expire

/-- `array[i]->expire` -/
def expireAt (h : TimeHeap) (i : ℕ) : Option ℤ := do
  let l ← h.array[i]?
  h.expireOf l

/-- The choice between the child at `child` and the one after it. -/
def lesserChild (h : TimeHeap) (child : ℕ) : Option ℕ :=
  if child + 1 < h.curSize then do
    let r ← h.expireAt (child + 1)
    let l ← h.expireAt child
    some (if r < l then child + 1 else child)
  else
    some child

/-- The loop of `percolate_down`, and the assignment behind it. -/
def percolateLoop (temp : Link) : ℕ → TimeHeap → ℕ → Option TimeHeap
  | 0, _, _ => none
  | fuel + 1, h, hole =>
    if 2 * hole + 1 < h.curSize then do
      let child ← h.lesserChild (2 * hole + 1)
      let c ← h.expireAt child
      let t ← h.expireOf temp
      if c < t then
        let l ← h.array[child]?
        let array ← write h.array hole l
        percolateLoop temp fuel { h with array := array } child
      else
        let array ← write h.array hole temp
        some { h with array := array }
    else do
      let array ← write h.array hole temp
      some { h with array := array }

/-- `percolate_down(hole)` -/
def percolateDown (h : TimeHeap) (hole : ℕ) : Option TimeHeap := do
  let temp ← h.array[hole]?
  percolateLoop temp (h.curSize + 1) h hole

/-- The loop of the second constructor, from `i` down to `0`. -/
def buildLoop : ℕ → TimeHeap → Option TimeHeap
  | 0, h => h.percolateDown 0
  | i + 1, h => do
    let h ← h.percolateDown (i + 1)
    buildLoop i h

/-- `time_heap(cap)` -/
def ofCapacity (s : Store HeapTimer) (cap : ℕ) : TimeHeap := ⟨s, List.replicate cap none, cap, 0⟩

/-- `time_heap(init_array, size, capacity)` -/
def ofArray (s : Store HeapTimer) (initArray : List Link) (size capacity : ℕ) :
    Option (Except StdException TimeHeap) :=
  if capacity < size then
    some (.error .exception)
  else
    let array := List.replicate capacity none
    if size ≠ 0 then do
      let array ← copy initArray size array
      let h ← buildLoop ((size - 1) / 2) ⟨s, array, capacity, size⟩
      some (.ok h)
    else
      some (.ok ⟨s, array, capacity, size⟩)

/-- `resize()`. Its `new` does not return null. -/
def resize (h : TimeHeap) : Option TimeHeap := do
  let temp ← copy h.array h.curSize (List.replicate (2 * h.capacity) none)
  some { h with array := temp, capacity := 2 * h.capacity }

/-- The loop of `add_timer`. Nothing is assigned behind it. -/
def holeLoop (timer : ℕ) : ℕ → TimeHeap → ℕ → Option TimeHeap
  | 0, _, _ => none
  | fuel + 1, h, hole =>
    if 0 < hole then do
      let parent := (hole - 1) / 2
      let p ← h.expireAt parent
      let t ← h.expireOf (some timer)
      if p ≤ t then
        some h
      else
        let l ← h.array[parent]?
        let array ← write h.array hole l
        holeLoop timer fuel { h with array := array } parent
    else
      some h

/-- `add_timer(timer)` -/
def addTimer (h : TimeHeap) : Link → Option TimeHeap
  | none => some h
  | some timer => do
    let h ← if h.capacity ≤ h.curSize then h.resize else some h
    holeLoop timer (h.curSize + 1) { h with curSize := h.curSize + 1 } h.curSize

/-- `delete l`, which does nothing for null. -/
def deleteLink (s : Store HeapTimer) : Link → Option (Store HeapTimer)
  | none => some s
  | some p => s.free p

/-- The loop of the destructor, for the first `n` entries. -/
def destroyLoop (h : TimeHeap) : ℕ → Option (Store HeapTimer)
  | 0 => some h.store
  | n + 1 => do
    let s ← h.destroyLoop n
    let l ← h.array[n]?
    deleteLink s l

/-- The destructor, with the timers that are left. -/
def destroy (h : TimeHeap) : Option (Store HeapTimer) := h.destroyLoop h.curSize

end TimeHeap

end LinuxServer
