import Mathlib

/-!
# Handles

A handle is a number that is given out for a resource, and given out again when the resource was closed.
The resources are numbered in the order in which they are opened, so that a resource that is closed
twice is told from two that were behind one handle.
-/

namespace Core

/-- What is behind the handles, how many resources were opened, and what the calls of `close` have closed:
`none` when the handle was not open. -/
structure Handles where
  resource : ℕ → Option ℕ
  opened : ℕ
  closes : List (Option ℕ)

namespace Handles

variable {h : Handles} {fd n : ℕ}

def empty : Handles := ⟨fun _ => none, 0, []⟩

/-- The handle is given out for a new resource. -/
def give (h : Handles) (fd : ℕ) : Handles :=
  { h with resource := Function.update h.resource fd (some h.opened), opened := h.opened + 1 }

def close (h : Handles) (fd : ℕ) : Handles :=
  { h with resource := Function.update h.resource fd none, closes := h.closes ++ [h.resource fd] }

/-- No resource is behind two handles, or closed twice, or closed and behind a handle; what is closed was
open. -/
structure Once (h : Handles) : Prop where
  resource_lt : ∀ fd n, h.resource fd = some n → n < h.opened
  resource_inj : ∀ fd fd' n, h.resource fd = some n → h.resource fd' = some n → fd = fd'
  closes_lt : ∀ n, some n ∈ h.closes → n < h.opened
  notMem_closes : ∀ fd n, h.resource fd = some n → some n ∉ h.closes
  nodup : h.closes.Nodup
  valid : none ∉ h.closes

lemma once_empty : empty.Once := ⟨nofun, nofun, nofun, nofun, List.nodup_nil, nofun⟩

lemma resource_give_of_ne {j : ℕ} (hj : j ≠ fd) : (h.give fd).resource j = h.resource j :=
  Function.update_of_ne hj _ _

lemma resource_close_of_ne {j : ℕ} (hj : j ≠ fd) : (h.close fd).resource j = h.resource j :=
  Function.update_of_ne hj _ _

lemma resource_give_self : (h.give fd).resource fd = some h.opened := Function.update_self _ _ _

lemma resource_close_self : (h.close fd).resource fd = none := Function.update_self _ _ _

lemma resource_give_ne_none {j : ℕ} : (h.give fd).resource j ≠ none ↔ j = fd ∨ h.resource j ≠ none := by
  by_cases hj : j = fd
  · subst hj
    rw [resource_give_self]
    exact iff_of_true nofun (.inl rfl)
  · rw [resource_give_of_ne hj]
    exact ⟨.inr, fun hopen => hopen.resolve_left hj⟩

lemma resource_close_ne_none {j : ℕ} :
    (h.close fd).resource j ≠ none ↔ j ≠ fd ∧ h.resource j ≠ none := by
  by_cases hj : j = fd
  · subst hj
    rw [resource_close_self]
    exact iff_of_false (fun hne => hne rfl) (fun hne => hne.1 rfl)
  · rw [resource_close_of_ne hj]
    exact ⟨fun hopen => ⟨hj, hopen⟩, fun hopen => hopen.2⟩

/-- A new resource is none of the old ones. -/
lemma Once.give (ho : h.Once) (fd : ℕ) : (h.give fd).Once := by
  have hcases : ∀ j n, (h.give fd).resource j = some n →
      (j = fd ∧ n = h.opened) ∨ (j ≠ fd ∧ h.resource j = some n) := by
    intro j n hj
    by_cases hjfd : j = fd
    · subst hjfd
      rw [resource_give_self] at hj
      exact .inl ⟨rfl, (Option.some.inj hj).symm⟩
    · rw [resource_give_of_ne hjfd] at hj
      exact .inr ⟨hjfd, hj⟩
  refine ⟨fun j n hj => ?_, fun i j n hi hj => ?_, fun n hn => ?_, fun j n hj hn => ?_, ho.nodup, ho.valid⟩
  · rcases hcases j n hj with ⟨-, rfl⟩ | ⟨-, hold⟩
    · exact Nat.lt_succ_self _
    · exact Nat.lt_succ_of_lt (ho.resource_lt j n hold)
  · rcases hcases i n hi with ⟨rfl, rfl⟩ | ⟨-, hold⟩
    · rcases hcases j _ hj with ⟨rfl, -⟩ | ⟨-, hold'⟩
      · rfl
      · exact absurd (ho.resource_lt j _ hold') (lt_irrefl _)
    · rcases hcases j n hj with ⟨-, rfl⟩ | ⟨-, hold'⟩
      · exact absurd (ho.resource_lt i _ hold) (lt_irrefl _)
      · exact ho.resource_inj i j n hold hold'
  · exact Nat.lt_succ_of_lt (ho.closes_lt n hn)
  · rcases hcases j n hj with ⟨-, rfl⟩ | ⟨-, hold⟩
    · exact absurd (ho.closes_lt _ hn) (lt_irrefl _)
    · exact ho.notMem_closes j n hold hn

/-- An open handle is closed. -/
lemma Once.close (ho : h.Once) (hn : h.resource fd = some n) : (h.close fd).Once := by
  have hcases : ∀ j m, (h.close fd).resource j = some m → j ≠ fd ∧ h.resource j = some m := by
    intro j m hj
    by_cases hjfd : j = fd
    · subst hjfd
      rw [resource_close_self] at hj
      cases hj
    · rw [resource_close_of_ne hjfd] at hj
      exact ⟨hjfd, hj⟩
  have hmem : ∀ x, x ∈ (h.close fd).closes ↔ x ∈ h.closes ∨ x = some n := by
    intro x
    show x ∈ h.closes ++ [h.resource fd] ↔ _
    rw [hn, List.mem_append, List.mem_singleton]
  refine ⟨fun j m hj => ?_, fun i j m hi hj => ?_, fun m hm => ?_, fun j m hj hm => ?_, ?_, fun hnone => ?_⟩
  · exact ho.resource_lt j m (hcases j m hj).2
  · exact ho.resource_inj i j m (hcases i m hi).2 (hcases j m hj).2
  · rcases (hmem _).mp hm with hm | hm
    · exact ho.closes_lt m hm
    · cases hm
      exact ho.resource_lt fd _ hn
  · obtain ⟨hjfd, hold⟩ := hcases j m hj
    rcases (hmem _).mp hm with hm | hm
    · exact ho.notMem_closes j m hold hm
    · cases hm
      exact hjfd (ho.resource_inj j fd _ hold hn)
  · show (h.closes ++ [h.resource fd]).Nodup
    rw [hn, List.nodup_append]
    refine ⟨ho.nodup, List.nodup_singleton _, ?_⟩
    rintro x hx y hy rfl
    rw [List.mem_singleton] at hy
    subst hy
    exact ho.notMem_closes fd n hn hx
  · rcases (hmem _).mp hnone with hnone | hnone
    · exact ho.valid hnone
    · cases hnone

end Handles

end Core
