import Mathlib

/-!
# Processes at places

A family of processes, each at a place of its program. A step moves one process, so it changes one
term of every sum over the family; `countAt` counts those at some places.
-/

namespace Core

variable {ι P : Type*} [Fintype ι]

/-- How many of the processes are at a place of `p`. -/
def countAt (p : P → Prop) [DecidablePred p] (place : ι → P) : ℕ :=
  (Finset.univ.filter fun i => p (place i)).card

variable {p : P → Prop} [DecidablePred p] {place : ι → P} {i : ι} {x : P}

lemma countAt_eq_sum : countAt p place = ∑ i, if p (place i) then 1 else 0 := Finset.card_filter _ _

lemma countAt_eq_zero : countAt p place = 0 ↔ ∀ i, ¬ p (place i) := by
  simp [countAt, Finset.filter_eq_empty_iff]

lemma countAt_pos (hi : p (place i)) : 0 < countAt p place :=
  Finset.card_pos.mpr ⟨i, Finset.mem_filter.mpr ⟨Finset.mem_univ i, hi⟩⟩

lemma eq_of_countAt_le_one {j : ι} (h : countAt p place ≤ 1) (hi : p (place i)) (hj : p (place j)) :
    i = j :=
  Finset.card_le_one.mp h i (Finset.mem_filter.mpr ⟨Finset.mem_univ i, hi⟩) j
    (Finset.mem_filter.mpr ⟨Finset.mem_univ j, hj⟩)

/-! ### One process moves -/

variable [DecidableEq ι]

/-- A sum of which one term changes. -/
lemma sum_of_ne {f g : ι → ℕ} (i : ι) (h : ∀ j, j ≠ i → g j = f j) :
    ∑ j, g j + f i = ∑ j, f j + g i := by
  have hrest : ∑ j ∈ Finset.univ.erase i, g j = ∑ j ∈ Finset.univ.erase i, f j :=
    Finset.sum_congr rfl fun j hj => h j (Finset.ne_of_mem_erase hj)
  rw [← Finset.add_sum_erase _ g (Finset.mem_univ i), ← Finset.add_sum_erase _ f (Finset.mem_univ i),
    hrest]
  omega

lemma countAt_update (p : P → Prop) [DecidablePred p] (place : ι → P) (i : ι) (x : P) :
    countAt p (Function.update place i x) + (if p (place i) then 1 else 0) =
    countAt p place + (if p x then 1 else 0) := by
  have hsum := sum_of_ne (f := fun j => if p (place j) then 1 else 0)
    (g := fun j => if p (Function.update place i x j) then 1 else 0) i fun j hj => by
      simp only [Function.update_of_ne hj]
  simpa only [countAt_eq_sum, Function.update_self] using hsum

/-- A move between places that are counted alike. -/
lemma countAt_update_of_iff (h : p x ↔ p (place i)) :
    countAt p (Function.update place i x) = countAt p place := by
  have hmove := countAt_update p place i x
  simp only [h] at hmove
  omega

lemma countAt_update_enter (hi : ¬ p (place i)) (hx : p x) :
    countAt p (Function.update place i x) = countAt p place + 1 := by
  have hmove := countAt_update p place i x
  simpa only [if_neg hi, if_pos hx, add_zero] using hmove

lemma countAt_update_leave (hi : p (place i)) (hx : ¬ p x) :
    countAt p (Function.update place i x) + 1 = countAt p place := by
  have hmove := countAt_update p place i x
  simpa only [if_pos hi, if_neg hx, add_zero] using hmove

end Core
