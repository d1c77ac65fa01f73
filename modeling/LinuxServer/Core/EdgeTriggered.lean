import Mathlib

/-!
# Edge-triggered descriptors

A descriptor that `epoll` watches edge-triggered: what has arrived and was not read yet, and whether
an event is pending. An arrival raises the event; one that finds it raised merges with it. A
wake-up takes the event away, whatever has been read by then.

When a reader takes one item for each event, `Owes c w k` keeps the account: of the items, one is
for the pending event, `w` are for events that were delivered and whose reads are still to
come, and `k` are stranded. A merging arrival is what strands an item.
-/

namespace Core

structure Descriptor (α : Type*) where
  items : List α
  event : Bool

namespace Descriptor

variable {α : Type*}

def empty : Descriptor α := ⟨[], false⟩

def arrive (c : Descriptor α) (x : α) : Descriptor α := ⟨c.items ++ [x], true⟩

/-- The event is delivered. -/
def wake (c : Descriptor α) : Descriptor α := { c with event := false }

/-- The first item is read, if there is one. -/
def read (c : Descriptor α) : Descriptor α := { c with items := c.items.tail }

def Owes (c : Descriptor α) (w k : ℕ) : Prop := c.items.length = c.event.toNat + w + k

variable {c : Descriptor α} {w k : ℕ}

lemma Owes.arrive (h : c.Owes w k) (x : α) : (c.arrive x).Owes w (k + c.event.toNat) := by
  simp only [Owes, Descriptor.arrive, List.length_append, List.length_singleton, Bool.toNat_true] at h ⊢
  omega

lemma Owes.wake (h : c.Owes w k) (he : c.event = true) : c.wake.Owes (w + 1) k := by
  simp only [Owes, Descriptor.wake, he, Bool.toNat_true, Bool.toNat_false] at h ⊢
  omega

lemma Owes.ne_nil (h : c.Owes (w + 1) k) : c.items ≠ [] := by
  intro hnil
  rw [Owes, hnil] at h
  simp only [List.length_nil] at h
  omega

lemma Owes.read (h : c.Owes (w + 1) k) : c.read.Owes w k := by
  simp only [Owes, Descriptor.read, List.length_tail] at h ⊢
  omega

/-- An event that nothing is read for strands an item. -/
lemma Owes.skip (h : c.Owes (w + 1) k) : c.Owes w (k + 1) := by
  simp only [Owes] at h ⊢
  omega

/-- The events of some descriptors are delivered. -/
lemma Owes.report {ι : Type*} [DecidableEq ι] {i : ι} {is : List ι} (h : c.Owes 0 k) (hnd : is.Nodup)
    (he : i ∈ is → c.event = true) : (if i ∈ is then c.wake else c).Owes (is.count i) k := by
  split
  next hmem =>
    rw [List.count_eq_one_of_mem hnd hmem]
    exact h.wake (he hmem)
  next hmem =>
    rw [List.count_eq_zero_of_not_mem hmem]
    exact h

/-- What holds of all items and of the one that arrives. -/
lemma forall_arrive {P : α → Prop} {x : α} (h : ∀ y ∈ c.items, P y) (hx : P x) :
    ∀ y ∈ (c.arrive x).items, P y := by
  intro y hy
  rcases List.mem_append.mp hy with hold | hnew
  · exact h y hold
  · rw [List.mem_singleton.mp hnew]
    exact hx

lemma forall_read {P : α → Prop} (h : ∀ y ∈ c.items, P y) : ∀ y ∈ c.read.items, P y :=
  fun y hy => h y (List.mem_of_mem_tail hy)

/-- With no event pending and no read to come, what is left is stranded. -/
lemma Owes.length_eq (h : c.Owes 0 k) (he : c.event = false) : c.items.length = k := by
  rw [Owes, he] at h
  simpa using h

end Descriptor

end Core
