import Mathlib

/-!
# Segments of an array

An array is a function on its indices; `segment f i n` lists the `n` entries from `i` on. An entry is
removed by moving the last one into its place.
-/

namespace Core

variable {α β : Type*}

def segment (f : ℕ → α) (i n : ℕ) : List α := (List.range' i n).map f

variable {f g : ℕ → α} {i m n : ℕ}

lemma segment_succ : segment f i (n + 1) = f i :: segment f (i + 1) n := rfl

lemma segment_snoc : segment f i (n + 1) = segment f i n ++ [f (i + n)] := by
  simp only [segment, List.range'_concat, List.map_append, List.map_singleton, one_mul]

lemma segment_append : segment f i m ++ segment f (i + m) n = segment f i (m + n) := by
  rw [segment, segment, ← List.map_append, List.range'_append_1, segment]

lemma mem_segment {x : α} : x ∈ segment f i n ↔ ∃ j, (i ≤ j ∧ j < i + n) ∧ f j = x := by
  simp only [segment, List.mem_map, List.mem_range'_1]

lemma map_segment (h : α → β) : (segment f i n).map h = segment (h ∘ f) i n := List.map_map

lemma segment_congr (h : ∀ j, i ≤ j → j < i + n → f j = g j) : segment f i n = segment g i n := by
  apply List.map_congr_left
  intro j hj
  rw [List.mem_range'_1] at hj
  exact h j hj.1 hj.2

/-- An update outside of the segment. -/
lemma segment_update {j : ℕ} {x : α} (hj : j < i ∨ i + n ≤ j) :
    segment (Function.update f j x) i n = segment f i n := by
  apply segment_congr
  intro k hle hlt
  exact Function.update_of_ne (by omega) _ _

/-- The last entry is moved into the place of the first one. -/
lemma segment_moveLast : (segment (Function.update f i (f (i + n))) i n).Perm (segment f (i + 1) n) := by
  cases n with
  | zero => exact .refl _
  | succ n =>
    rw [segment_succ, segment_update (Or.inl (Nat.lt_succ_self i)), Function.update_self, segment_snoc]
    have hlast : i + (n + 1) = i + 1 + n := by omega
    rw [hlast]
    exact (List.perm_append_singleton _ _).symm

/-- An entry is removed: the last one is moved into its place. -/
theorem segment_remove {j : ℕ} (hle : i ≤ j) (hlt : j ≤ i + n) :
    (segment f i (n + 1)).Perm (f j :: segment (Function.update f j (f (i + n))) i n) := by
  obtain ⟨a, rfl⟩ := Nat.exists_eq_add_of_le hle
  obtain ⟨m, rfl⟩ : ∃ m, n = a + m := Nat.exists_eq_add_of_le (by omega)
  have hlast : i + (a + m) = i + a + m := by omega
  have hafter : (segment (Function.update f (i + a) (f (i + a + m))) i (a + m)) =
      segment f i a ++ segment (Function.update f (i + a) (f (i + a + m))) (i + a) m := by
    rw [← segment_append, segment_update (Or.inr le_rfl)]
  rw [hlast, hafter, Nat.add_assoc, ← segment_append, segment_succ]
  refine List.perm_middle.trans (.cons _ ?_)
  exact (segment_moveLast.symm).append_left _

end Core
