import LinuxServer.TimeHeap.Accesses
import LinuxServer.TimeHeap.Properties

/-!
# How a heap is built

What a call of `percolate_down` does to the subtree of its hole, and what the second constructor,
which calls it bottom-up, makes of the timers that it is given. Both stay below `cur_size` with it.
-/

namespace LinuxServer

open Core Core.MinHeap Core.Recorded

namespace TimeHeap

variable {h h' : TimeHeap} {s : Store HeapTimer} {initArray : List Link} {timers : List ℕ}
  {hole r i : ℕ}

/-! ### `percolate_down` -/

/-- `i` and `j` have timers, and that at `j` does not expire before that at `i`. -/
def Precedes (h : TimeHeap) (i j : ℕ) : Prop :=
  ∃ e e', h.expireAt i = some e ∧ h.expireAt j = some e' ∧ e ≤ e'

/-- The subtree of `r` is a heap: its entries are timers, and no entry precedes its parent. -/
structure HeapUnder (h : TimeHeap) (r : ℕ) : Prop where
  full : h.FullUnder r
  ordered : ∀ i c, Under r i → IsChild c i → c < h.curSize → h.Precedes i c

/-- `percolate_down(hole)` leaves `h'` for `h`. -/
structure Percolated (h h' : TimeHeap) (hole : ℕ) : Prop where
  heap : h'.HeapUnder hole
  least : ∀ i, Under hole i → i < h.curSize → h'.Precedes hole i
  /-- The entries of the subtree change places with each other. -/
  rearranged : Rearranged (fun i => Under hole i ∧ i < h.curSize) h.array h'.array
  outside : ∀ i, ¬ (Under hole i ∧ i < h.curSize) → h'.array[i]? = h.array[i]?
  store : h'.store = h.store
  capacity : h'.capacity = h.capacity
  curSize : h'.curSize = h.curSize

lemma precedes_of_key {j : ℕ} (hi : ∃ e, h.expireAt i = some e) (hj : ∃ e, h.expireAt j = some e)
    (hle : h.key i ≤ h.key j) : h.Precedes i j := by
  obtain ⟨e, he⟩ := hi
  obtain ⟨e', he'⟩ := hj
  rw [key_of_expireAt he, key_of_expireAt he'] at hle
  exact ⟨e, e', he, he', hle⟩

lemma HeapUnder.ordered_key (hh : h.HeapUnder r) : Ordered h.key h.curSize r := by
  intro i c hi hc hcn
  obtain ⟨e, e', he, he', hle⟩ := hh.ordered i c hi hc hcn
  rwa [key_of_expireAt he, key_of_expireAt he']

lemma heapUnder_of_ordered (hfull : h.FullUnder r) (hord : Ordered h.key h.curSize r) :
    h.HeapUnder r where
  full := hfull
  ordered i c hi hc hcn := precedes_of_key (hfull i hi (hc.lt.trans hcn)) (hfull c (hi.child hc) hcn)
    (hord i c hi hc hcn)

/-- An entry of a subtree is its root, or below one of the children. -/
lemma fullUnder_of_children (hroot : ∃ e, h.expireAt r = some e) (h₁ : h.FullUnder (2 * r + 1))
    (h₂ : h.FullUnder (2 * r + 2)) : h.FullUnder r := by
  intro i hi hin
  rcases hi.cases_child with rfl | hi | hi
  · exact hroot
  · exact h₁ i hi hin
  · exact h₂ i hi hin

lemma Sifted.fullUnder (hs : h.Sifted h' r) (hfull : h.FullUnder r) : h'.FullUnder r := by
  intro i hi hin
  rw [hs.curSize] at hin
  obtain ⟨j, hj, hget⟩ := hs.rearranged.exists_getElem? ⟨hi, hin⟩
  rw [expireAt_congr hget hs.store]
  exact hfull j hj.1 hj.2

lemma Sifted.percolated (hs : h.Sifted h' r) (hfull : h.FullUnder r) : Percolated h h' r where
  heap := heapUnder_of_ordered (hs.fullUnder hfull) (hs.curSize.symm ▸ hs.ordered)
  least i hi hin := precedes_of_key
    (hs.fullUnder hfull r .root (hs.curSize.symm ▸ hi.le.trans_lt hin))
    (hs.fullUnder hfull i hi (hs.curSize.symm ▸ hin)) (hs.ordered.root_le hi hin)
  rearranged := hs.rearranged
  outside _ hi := hs.rearranged.getElem?_of_not hi
  store := hs.store
  capacity := hs.capacity
  curSize := hs.curSize

/-- Of two heaps below the children of the hole, `percolate_down` makes one heap below the hole, and
it reads and writes nothing from `cur_size` on. -/
theorem percolateDown_percolated (hlt : hole < h.curSize) (hroot : ∃ e, h.expireAt hole = some e)
    (h₁ : h.HeapUnder (2 * hole + 1)) (h₂ : h.HeapUnder (2 * hole + 2)) :
    (∃ h', h.percolateDown hole = some h' ∧ Percolated h h' hole) ∧
      (Accesses.percolateDown h hole).Records (ArrayOp.Below h.array.length h.curSize) := by
  have hfull := fullUnder_of_children hroot h₁.full h₂.full
  obtain ⟨h', hh', hs⟩ := percolateDown_spec hlt hfull h₁.ordered_key h₂.ordered_key
  exact ⟨⟨h', hh', hs.percolated hfull⟩, Accesses.records_percolateDown hlt⟩

/-- Three timers, the latest of them at the root. -/
theorem percolateDown_percolated_three :
    let h : TimeHeap := ⟨((Store.empty.new ⟨9⟩).new ⟨5⟩).new ⟨7⟩, [some 0, some 1, some 2], 3, 3⟩
    (∃ h', h.percolateDown 0 = some h' ∧ Percolated h h' 0) ∧
      (Accesses.percolateDown h 0).Records (ArrayOp.Below 3 3) := by
  intro h
  have hfull : h.Full := by
    intro i hi
    have hi' : i < 3 := hi
    interval_cases i
    · exact ⟨9, rfl⟩
    · exact ⟨5, rfl⟩
    · exact ⟨7, rfl⟩
  exact percolateDown_percolated (by decide) (hfull 0 (by decide))
    (heapUnder_of_ordered hfull.under (ordered_of_le (by decide)))
    (heapUnder_of_ordered hfull.under (ordered_of_le (by decide)))

/-! ### The second constructor -/

/-- A heap of the timers in an array of `cap` entries. -/
structure Built (h : TimeHeap) (s : Store HeapTimer) (timers : List ℕ) (cap : ℤ) : Prop where
  store : h.store = s
  capacity : h.capacity = cap
  curSize : h.curSize = timers.length
  entries : (h.array.take timers.length).Perm (timers.map some)
  rest : h.array.drop timers.length = List.replicate (cap.toNat - timers.length) none
  ordered : ∀ i, 0 < i → i < timers.length → h.Precedes ((i - 1) / 2) i

lemma Sifted.built {capacity : ℕ} (hs : (filled s timers capacity).Sifted h 0)
    (hlive : ∀ p ∈ timers, ∃ t, s.cell p = some t) : h.Built s timers capacity where
  store := hs.store
  capacity := congrArg Nat.cast hs.capacity
  curSize := hs.curSize
  entries := hs.perm_take
  rest := hs.drop_eq
  ordered i hi hin := by
    have hfull := hs.full (full_filled hlive)
    have hin' : i < h.curSize := hs.curSize.symm ▸ hin
    exact precedes_of_key (hfull _ (by omega)) (hfull i hin') (ordered_zero.mp hs.ordered i hi hin)

/-- With room for the timers, the second constructor builds a heap of them, and `percolate_down`
stays below `size` in it; without room it throws, and nothing is allocated before. -/
theorem ofArray_built {capacity : ℤ} (htake : initArray.take timers.length = timers.map some)
    (hlive : ∀ p ∈ timers, ∃ t, s.cell p = some t) :
    (timers.length ≤ capacity →
      (∃ h, (Accesses.ofArray s initArray timers.length capacity).result = some (.ok h) ∧
        h.Built s timers capacity) ∧
      ∀ array, (do
          let array ← Accesses.newArray capacity.toNat
          Accesses.copy initArray timers.length array).result = some array →
        timers.length ≠ 0 →
        (Accesses.buildLoop ((timers.length - 1) / 2)
          ⟨s, array, capacity.toNat, timers.length⟩).Records
            (ArrayOp.Below array.length timers.length)) ∧
    (capacity < timers.length →
      (Accesses.ofArray s initArray timers.length capacity).result = some (.error .exception) ∧
        (Accesses.ofArray s initArray timers.length capacity).record = []) := by
  constructor
  · intro hcap
    obtain ⟨n, rfl⟩ := Int.eq_ofNat_of_zero_le ((Int.natCast_nonneg _).trans hcap)
    obtain ⟨h, hh, hs⟩ := ofArray_spec htake (Int.ofNat_le.mp hcap) hlive
    refine ⟨⟨h, Accesses.result_ofArray.trans hh, hs.built hlive⟩, fun array _ hsize => ?_⟩
    refine Accesses.records_buildLoop _ _ ?_
    show (timers.length - 1) / 2 < timers.length
    omega
  · intro hcap
    rw [Accesses.ofArray, if_pos hcap]
    exact ⟨rfl, rfl⟩

/-- Two timers, the later one first, and room for three. -/
theorem ofArray_built_two :
    ∃ h, (Accesses.ofArray ((Store.empty.new ⟨9⟩).new ⟨5⟩) [some 0, some 1] 2 3).result =
      some (.ok h) ∧ h.Built ((Store.empty.new ⟨9⟩).new ⟨5⟩) [0, 1] 3 :=
  ((@ofArray_built _ _ [0, 1] 3 rfl (by simp [Store.empty])).1 (by decide)).1

end TimeHeap

end LinuxServer
