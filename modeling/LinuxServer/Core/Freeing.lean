import LinuxServer.Core.Dll

/-!
# Freeing

The loop that deletes what a row of pointers leads to is defined if and only if no object is in the row
twice, and each is still there.

The loop that deletes every node of a list reads where the next one is before it deletes. On a list
that ends it deletes each node once and nothing else.
-/

namespace Core.Store

open Dll Linked

variable {α : Type*} {s s' : Store α} {hd b : Link} {xs : List ℕ}

/-- `s'` is `s` without the objects `gone`. -/
structure Freed (s s' : Store α) (gone : List ℕ) : Prop where
  cell : ∀ q, s'.cell q = if q ∈ gone then none else s.cell q
  fresh : s'.fresh = s.fresh

lemma Freed.refl (s : Store α) : s.Freed s [] := ⟨fun q => by simp, rfl⟩

lemma Freed.trans {s'' : Store α} {gone gone' : List ℕ} (h : s.Freed s' gone)
    (h' : s'.Freed s'' gone') : s.Freed s'' (gone ++ gone') := by
  refine ⟨fun q => ?_, h'.fresh.trans h.fresh⟩
  rw [h'.cell, h.cell]
  by_cases hq : q ∈ gone
  · simp [hq]
  · simp [hq]

lemma freed_delete (s : Store α) (x : ℕ) : s.Freed (s.delete x) [x] :=
  ⟨fun q => by simp, rfl⟩

/-! ### A row of pointers -/

/-- `delete` of one pointer after the other. Of null it does nothing. -/
def freeAll (s : Store α) : List Link → Option (Store α)
  | [] => some s
  | none :: ls => s.freeAll ls
  | some p :: ls => do
    let s ← s.free p
    s.freeAll ls

variable {ls : List Link} {l : Link} {p : ℕ}

lemma freeAll_append (s : Store α) (ls ls' : List Link) :
    s.freeAll (ls ++ ls') = (s.freeAll ls).bind fun s => s.freeAll ls' := by
  induction ls generalizing s with
  | nil => rfl
  | cons l ls ih =>
    cases l with
    | none => exact ih s
    | some p =>
      rw [List.cons_append, freeAll, freeAll]
      cases s.free p with
      | none => rfl
      | some s' => exact ih s'

lemma free_eq_some (h : s.free p = some s') : s.cell p ≠ none ∧ s' = s.delete p := by
  rw [free] at h
  split at h
  next hp =>
    cases h
    exact ⟨Option.isSome_iff_ne_none.mp hp, rfl⟩
  next => cases h

/-- Each object in the row is there, and there once. -/
structure Freeable (s : Store α) (ls : List Link) : Prop where
  live : ∀ p, some p ∈ ls → s.cell p ≠ none
  once : ∀ p, ls.count (some p) ≤ 1

lemma freeable_none : s.Freeable (none :: ls) ↔ s.Freeable ls := by
  constructor
  · rintro ⟨hlive, honce⟩
    exact ⟨fun p hp => hlive p (List.mem_cons_of_mem _ hp), fun p => by simpa using honce p⟩
  · rintro ⟨hlive, honce⟩
    exact ⟨fun p hp => hlive p (by simpa using hp), fun p => by simpa using honce p⟩

lemma freeable_some : s.Freeable (some p :: ls) ↔ s.cell p ≠ none ∧ (s.delete p).Freeable ls := by
  constructor
  · rintro ⟨hlive, honce⟩
    have hp : some p ∉ ls := by
      intro hmem
      have hle := honce p
      rw [List.count_cons_self] at hle
      have hpos := List.count_pos_iff.mpr hmem
      omega
    refine ⟨hlive p List.mem_cons_self, fun q hq => ?_, fun q => ?_⟩
    · rw [delete_cell, if_neg fun heq : q = p => hp (heq ▸ hq)]
      exact hlive q (List.mem_cons_of_mem _ hq)
    · exact List.count_le_count_cons.trans (honce q)
  · rintro ⟨hp, hlive, honce⟩
    have hnot : some p ∉ ls := fun hmem => hlive p hmem (by simp)
    refine ⟨fun q hq => ?_, fun q => ?_⟩
    · rcases List.mem_cons.mp hq with heq | hq
      · rwa [Option.some_inj.mp heq]
      · intro hnone
        exact hlive q hq (by simp [hnone])
    · by_cases hq : q = p
      · rw [hq, List.count_cons_self, List.count_eq_zero_of_not_mem hnot]
      · rw [List.count_cons_of_ne (by simpa using Ne.symm hq)]
        exact honce q

theorem freeAll_iff : (∃ s', s.freeAll ls = some s') ↔ s.Freeable ls := by
  induction ls generalizing s with
  | nil => exact iff_of_true ⟨s, rfl⟩ ⟨by simp, by simp⟩
  | cons l ls ih =>
    cases l with
    | none => rw [freeable_none, freeAll, ih]
    | some p =>
      rw [freeable_some, ← ih, freeAll]
      constructor
      · rintro ⟨s', hs'⟩
        obtain ⟨s₁, hs₁, hrest⟩ := Option.bind_eq_some_iff.mp hs'
        obtain ⟨hp, rfl⟩ := free_eq_some hs₁
        exact ⟨hp, s', hrest⟩
      · rintro ⟨hp, s', hs'⟩
        obtain ⟨a, ha⟩ := Option.ne_none_iff_exists'.mp hp
        exact ⟨s', by rw [s.free_some p ha]; exact hs'⟩

/-- What is in the row is deleted, and nothing else. -/
theorem freeAll_cell (h : s.freeAll ls = some s') (q : ℕ) :
    s'.cell q = if some q ∈ ls then none else s.cell q := by
  induction ls generalizing s with
  | nil =>
    cases h
    rfl
  | cons l ls ih =>
    cases l with
    | none => simpa using ih h
    | some p =>
      obtain ⟨s₁, hs₁, hrest⟩ := Option.bind_eq_some_iff.mp h
      obtain ⟨-, rfl⟩ := free_eq_some hs₁
      rw [ih hrest, delete_cell]
      by_cases hq : q = p
      · simp [hq]
      · simp [hq]

/-! ### A list -/

variable [Linked α]

/-- `while (tmp) { next = tmp->next; delete tmp; tmp = next; }` -/
def freeLoop : ℕ → Store α → Link → Option (Store α)
  | 0, _, _ => none
  | _ + 1, s, none => some s
  | fuel + 1, s, some tmp => do
    let a ← s.cell tmp
    let s ← s.free tmp
    freeLoop fuel s (node a).next

/-- What is not freed keeps its links. -/
lemma Freed.links {gone : List ℕ} (h : s.Freed s' gone) {q : ℕ} (hq : q ∉ gone) :
    s'.links q = s.links q := by
  rw [Store.links, Store.links, view, view, h.cell, if_neg hq]

lemma freeLoop_seg (h : Seg s.links b hd xs none) {fuel : ℕ} (hfuel : xs.length < fuel) :
    ∃ s', freeLoop fuel s hd = some s' ∧ s.Freed s' xs := by
  induction xs generalizing s b hd fuel with
  | nil =>
    obtain ⟨fuel, rfl⟩ := Nat.exists_eq_succ_of_ne_zero hfuel.ne'
    obtain rfl : hd = none := h
    exact ⟨s, rfl, .refl s⟩
  | cons x xs ih =>
    obtain ⟨fuel, rfl⟩ := Nat.exists_eq_succ_of_ne_zero (Nat.ne_of_gt (Nat.zero_lt_of_lt hfuel))
    have hx : x ∉ xs := (List.nodup_cons.mp h.nodup).1
    obtain ⟨rfl, n, hn, hrest⟩ := h
    obtain ⟨a, ha, hnode⟩ := cell_of_links hn
    have hrest' : Seg (s.delete x).links (some x) n xs none :=
      hrest.congr fun q hq => (freed_delete s x).links fun hmem => hx (List.mem_singleton.mp hmem ▸ hq)
    obtain ⟨s', hs', hfreed⟩ := ih hrest' (Nat.lt_of_succ_lt_succ hfuel)
    refine ⟨s', ?_, (freed_delete s x).trans hfreed⟩
    rw [freeLoop, ha, Option.bind_eq_bind, Option.bind_some, s.free_some x ha, Option.bind_eq_bind,
      Option.bind_some, hnode]
    exact hs'

/-- The loop deletes the nodes of the list. -/
theorem freeLoop_spec (h : IsList s.links hd xs) :
    ∃ s', freeLoop (s.fresh + 1) s hd = some s' ∧ s.Freed s' xs :=
  freeLoop_seg h (Nat.lt_succ_of_le (length_le_fresh h))

end Core.Store
