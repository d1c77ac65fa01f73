import Mathlib

/-!
# Binary heaps in an array

The children of the entry at `i` stand at `2 * i + 1` and `2 * i + 2`. An entry that may be too
large for its place is a hole of the order; exchanged with its least child, it moves the hole one
level down, and where no child is smaller the hole is closed.

The order is stated for the keys `f : ℕ → κ` of the entries, of which those below `n` count.
-/

namespace Core

namespace MinHeap

def IsChild (c i : ℕ) : Prop := c = 2 * i + 1 ∨ c = 2 * i + 2

/-- The places of the subtree of `r`. -/
inductive Under (r : ℕ) : ℕ → Prop
  | root : Under r r
  | child {i c : ℕ} : Under r i → IsChild c i → Under r c

lemma IsChild.lt {c i : ℕ} (h : IsChild c i) : i < c := by
  rcases h with rfl | rfl <;> omega

/-- A place has one parent. -/
lemma IsChild.unique {c i j : ℕ} (h : IsChild c i) (h' : IsChild c j) : i = j := by
  rcases h with rfl | rfl <;> rcases h' with h' | h' <;> omega

lemma Under.le {r i : ℕ} (h : Under r i) : r ≤ i := by
  induction h with
  | root => exact le_rfl
  | child _ hc ih => exact ih.trans hc.lt.le

lemma Under.of_child {r i c : ℕ} (h : Under r c) (hc : IsChild c i) (hne : c ≠ r) : Under r i := by
  cases h with
  | root => exact absurd rfl hne
  | child h' hc' => exact hc.unique hc' ▸ h'

/-- Below `r` is below one of its children. -/
lemma Under.cases_child {r i : ℕ} (h : Under r i) :
    i = r ∨ Under (2 * r + 1) i ∨ Under (2 * r + 2) i := by
  induction h with
  | root => exact .inl rfl
  | child _ hc ih =>
    rcases ih with rfl | h | h
    · rcases hc with rfl | rfl
      · exact .inr (.inl .root)
      · exact .inr (.inr .root)
    · exact .inr (.inl (h.child hc))
    · exact .inr (.inr (h.child hc))

lemma under_zero (i : ℕ) : Under 0 i := by
  induction i using Nat.strongRecOn with
  | ind i ih =>
    rcases Nat.eq_zero_or_pos i with rfl | hi
    · exact .root
    · have hc : IsChild i ((i - 1) / 2) := by unfold IsChild; omega
      exact (ih _ hc.lt).child hc

variable {κ : Type*} [LinearOrder κ] {f g : ℕ → κ} {n r h c i : ℕ}

/-- No entry below `r` is smaller than its parent. -/
def Ordered (f : ℕ → κ) (n r : ℕ) : Prop :=
  ∀ i c, Under r i → IsChild c i → c < n → f i ≤ f c

/-- The same but for the entry at `h`, which may be larger than its children; they are not
smaller than its parent. -/
structure OrderedBut (f : ℕ → κ) (n r h : ℕ) : Prop where
  under : Under r h
  edges : ∀ i c, Under r i → IsChild c i → c < n → i ≠ h → f i ≤ f c
  grand : ∀ i c, Under r i → IsChild h i → IsChild c h → c < n → f i ≤ f c

/-- A subtree of which only the root may be out of place. -/
lemma OrderedBut.of_children (h₁ : Ordered f n (2 * r + 1)) (h₂ : Ordered f n (2 * r + 2)) :
    OrderedBut f n r r where
  under := .root
  edges i c hi hc hcn hne := by
    rcases hi.cases_child with rfl | hi | hi
    · exact absurd rfl hne
    · exact h₁ i c hi hc hcn
    · exact h₂ i c hi hc hcn
  grand i c hi hr _ _ := absurd hi.le (not_le.mpr hr.lt)

/-- The hole moves down to the least child. -/
lemma OrderedBut.step (o : OrderedBut f n r h) (hc : IsChild c h) (hcn : c < n) (hlt : f c ≤ f h)
    (hleast : ∀ d, IsChild d h → d < n → f c ≤ f d) : OrderedBut (f ∘ Equiv.swap h c) n r c := by
  have hself : (f ∘ Equiv.swap h c) h = f c := by simp
  have hchild : (f ∘ Equiv.swap h c) c = f h := by simp
  have hother : ∀ i, i ≠ h → i ≠ c → (f ∘ Equiv.swap h c) i = f i := by
    intro i h₁ h₂
    rw [Function.comp_apply, Equiv.swap_apply_of_ne_of_ne h₁ h₂]
  refine ⟨o.under.child hc, ?_, ?_⟩
  · intro i d hi hd hdn hic
    by_cases hih : i = h
    · subst hih
      rw [hself]
      by_cases hdc : d = c
      · rw [hdc, hchild]
        exact hlt
      · rw [hother d hd.lt.ne' hdc]
        exact hleast d hd hdn
    · rw [hother i hih hic]
      by_cases hdh : d = h
      · subst hdh
        rw [hself]
        exact o.grand i c hi hd hc hcn
      · by_cases hdc : d = c
        · exact absurd (hd.unique (hdc ▸ hc)) hih
        · rw [hother d hdh hdc]
          exact o.edges i d hi hd hdn hih
  · intro i d _ hi hd hdn
    obtain rfl : i = h := hi.unique hc
    have hci := hc.lt
    have hdc := hd.lt
    rw [hself, hother d (by omega) (by omega)]
    exact o.edges c d (o.under.child hc) hd hdn (by omega)

/-- The hole is closed where no child is smaller. -/
lemma OrderedBut.close (o : OrderedBut f n r h) (hle : ∀ d, IsChild d h → d < n → f h ≤ f d) :
    Ordered f n r := by
  intro i c hi hc hcn
  by_cases hih : i = h
  · subst hih
    exact hle c hc hcn
  · exact o.edges i c hi hc hcn hih

/-- A place without children is in order. -/
lemma ordered_of_le (h : n ≤ 2 * r + 1) : Ordered f n r := by
  intro i c hi hc hcn
  have hle := hi.le
  rcases hc with rfl | rfl <;> omega

/-- When the subtree of `r` is put in order without a change elsewhere, the subtrees from `r` on
are in order if those behind `r` were. -/
lemma Ordered.extend (hr : Ordered g n r) (hf : ∀ j, r < j → Ordered f n j)
    (hg : ∀ j, ¬ Under r j → g j = f j) : ∀ j, r ≤ j → Ordered g n j := by
  intro j hj
  rcases Nat.eq_or_lt_of_le hj with rfl | hj
  · exact hr
  · intro i c hi hc hcn
    by_cases hri : Under r i
    · exact hr i c hri hc hcn
    · have hrc : ¬ Under r c := fun hrc => hri (hrc.of_child hc (by
        have := hi.le
        have := hc.lt
        omega))
      rw [hg i hri, hg c hrc]
      exact hf j hj i c hi hc hcn

/-- The root of a subtree in order is least. -/
lemma Ordered.root_le (o : Ordered f n r) (hi : Under r i) (hin : i < n) : f r ≤ f i := by
  induction hi with
  | root => exact le_rfl
  | child hi hc ih => exact (ih (hc.lt.trans hin)).trans (o _ _ hi hc hin)

lemma ordered_zero : Ordered f n 0 ↔ ∀ i, 0 < i → i < n → f ((i - 1) / 2) ≤ f i := by
  constructor
  · intro o i hi hin
    exact o _ i (under_zero _) (by unfold IsChild; omega) hin
  · intro o i c _ hc hcn
    obtain rfl : i = (c - 1) / 2 := by rcases hc with rfl | rfl <;> omega
    exact o c (by have := hc.lt; omega) hcn

end MinHeap

/-! ### Rearrangements of a list -/

variable {α : Type*} {P : ℕ → Prop} {a b c : List α}

/-- `b` has the entries of `a`, moved about within the places `P`. -/
def Rearranged (P : ℕ → Prop) (a b : List α) : Prop :=
  ∃ σ : Equiv.Perm ℕ, (∀ i, b[i]? = a[σ i]?) ∧ ∀ i, ¬ P i → σ i = i

namespace Rearranged

lemma refl : Rearranged P a a := ⟨1, fun _ => rfl, fun _ _ => rfl⟩

lemma trans (h : Rearranged P a b) (h' : Rearranged P b c) : Rearranged P a c := by
  obtain ⟨σ, hσ, hfix⟩ := h
  obtain ⟨τ, hτ, hfix'⟩ := h'
  refine ⟨σ * τ, fun i => by rw [hτ, hσ, Equiv.Perm.mul_apply], ?_⟩
  intro i hi
  rw [Equiv.Perm.mul_apply, hfix' i hi, hfix i hi]

lemma mono {Q : ℕ → Prop} (h : Rearranged P a b) (hPQ : ∀ i, P i → Q i) : Rearranged Q a b := by
  obtain ⟨σ, hσ, hfix⟩ := h
  exact ⟨σ, hσ, fun i hi => hfix i fun hP => hi (hPQ i hP)⟩

lemma getElem?_of_not {i : ℕ} (h : Rearranged P a b) (hi : ¬ P i) : b[i]? = a[i]? := by
  obtain ⟨σ, hσ, hfix⟩ := h
  rw [hσ, hfix i hi]

/-- What stands at a place of `P` stood at a place of `P`. -/
lemma exists_getElem? {i : ℕ} (h : Rearranged P a b) (hi : P i) : ∃ j, P j ∧ b[i]? = a[j]? := by
  obtain ⟨σ, hσ, hfix⟩ := h
  refine ⟨σ i, ?_, hσ i⟩
  by_contra hσi
  have hii : σ i = i := σ.injective (hfix _ hσi)
  exact hσi (hii.symm ▸ hi)

lemma take {n : ℕ} (h : Rearranged P a b) (hP : ∀ i, P i → i < n) :
    Rearranged P (a.take n) (b.take n) := by
  obtain ⟨σ, hσ, hfix⟩ := h
  refine ⟨σ, ?_, hfix⟩
  intro i
  have hlt : σ i < n ↔ i < n := by
    by_cases hi : P i
    · refine iff_of_true (hP _ ?_) (hP i hi)
      by_contra hσi
      have hii : σ i = i := σ.injective (hfix _ hσi)
      exact hσi (hii.symm ▸ hi)
    · rw [hfix i hi]
  simp only [List.getElem?_take, hlt, hσ]

lemma drop {n : ℕ} (h : Rearranged P a b) (hP : ∀ i, P i → i < n) : b.drop n = a.drop n := by
  apply List.ext_getElem?
  intro i
  rw [List.getElem?_drop, List.getElem?_drop]
  exact h.getElem?_of_not fun hi => absurd (hP _ hi) (by omega)

lemma swap {i j : ℕ} (hi : P i) (hj : P j) (h : ∀ k, b[k]? = a[Equiv.swap i j k]?) :
    Rearranged P a b :=
  ⟨Equiv.swap i j, h, fun _ hk => Equiv.swap_apply_of_ne_of_ne (fun heq => hk (heq ▸ hi))
    fun heq => hk (heq ▸ hj)⟩

lemma length_eq (h : Rearranged P a b) : b.length = a.length := by
  obtain ⟨σ, hσ, -⟩ := h
  have hmem : ∀ i, i < b.length ↔ σ i < a.length := by
    intro i
    rw [← not_le, ← not_le, ← List.getElem?_eq_none_iff, ← List.getElem?_eq_none_iff, hσ]
  have himage : (Finset.range b.length).map σ.toEmbedding = Finset.range a.length := by
    ext i
    simp only [Finset.mem_map_equiv, Finset.mem_range, hmem, Equiv.apply_symm_apply]
  simpa using congrArg Finset.card himage

theorem perm (h : Rearranged P a b) : b.Perm a := by
  have hlen := h.length_eq
  obtain ⟨σ, hσ, -⟩ := h
  have hmem : ∀ i, σ i < a.length ↔ i < a.length := by
    intro i
    rw [← not_le, ← not_le, ← List.getElem?_eq_none_iff, ← hσ, List.getElem?_eq_none_iff, hlen]
  let τ : Equiv.Perm (Fin a.length) :=
    ⟨fun i => ⟨σ i, (hmem i).mpr i.isLt⟩,
      fun i => ⟨σ.symm i, (hmem _).mp (by simp)⟩, fun i => by simp, fun i => by simp⟩
  have hb : b = List.ofFn (a.get ∘ τ) := by
    apply List.ext_getElem?
    intro i
    rw [hσ, List.getElem?_ofFn]
    split
    next hi => exact List.getElem?_eq_getElem ((hmem i).mpr hi)
    next hi => exact List.getElem?_eq_none (not_lt.mp fun h => hi ((hmem i).mp h))
  have hperm := τ.ofFn_comp_perm a.get
  rwa [← hb, List.ofFn_get] at hperm

end Rearranged

/-- A hole of a list, moved from `i` to `j`: what was at `j` and what the hole waits for change
places. -/
lemma getElem?_set_set {x t : α} {i j : ℕ} (hij : i ≠ j) (hi : i < a.length)
    (hj : a[j]? = some x) (k : ℕ) :
    ((a.set i x).set j t)[k]? = (a.set i t)[Equiv.swap i j k]? := by
  have hjlt : j < a.length := (List.getElem?_eq_some_iff.mp hj).1
  by_cases hki : k = i
  · subst hki
    simp [hij, hij.symm, hi, hj]
  · by_cases hkj : k = j
    · subst hkj
      simp [hi, hjlt]
    · rw [Equiv.swap_apply_of_ne_of_ne hki hkj]
      simp [Ne.symm hki, Ne.symm hkj]

end Core
