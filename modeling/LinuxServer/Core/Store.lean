import Mathlib

/-!
# Objects in memory

A pointer names an object for its whole life: `new` hands out a name that was never used before,
`delete` takes the object away. Reading through a pointer to an object that is gone, or that
never was, gives `none`, so a program over a store is a partial function that stops where a C++
program would have undefined behaviour.
-/

namespace Core

/-- A pointer variable: the name of an object, or `none` for the null pointer. -/
abbrev Link := Option ℕ

/-- The live objects. No object has a name from `fresh` on. -/
structure Store (α : Type*) where
  cell : ℕ → Option α
  fresh : ℕ
  bound : ∀ p, fresh ≤ p → cell p = none

namespace Store

variable {α : Type*} (s : Store α) (p q : ℕ)

/-- The store without objects. -/
def empty : Store α := ⟨fun _ => none, 0, fun _ _ => rfl⟩

/-- `new`: the object `a` under a fresh name. -/
def new (a : α) : Store α where
  cell q := if q = s.fresh then some a else s.cell q
  fresh := s.fresh + 1
  bound q hq := by rw [if_neg (by omega)]; exact s.bound q (by omega)

/-- Assignment to fields of the object `p`; nothing happens when `p` is gone. -/
def modify (f : α → α) : Store α where
  cell q := if q = p then (s.cell q).map f else s.cell q
  fresh := s.fresh
  bound q hq := by simp [s.bound q hq]

/-- `delete`: the object `p` is gone. -/
def delete : Store α where
  cell q := if q = p then none else s.cell q
  fresh := s.fresh
  bound q hq := by simp [s.bound q hq]

/-- Assignment through a pointer variable: undefined on null and on an object that is gone. -/
def assign (l : Link) (f : α → α) : Option (Store α) :=
  l.bind fun p => if (s.cell p).isSome then some (s.modify p f) else none

/-- Dereference of a pointer variable. -/
def deref (l : Link) : Option α := l.bind s.cell

/-- `delete` through a pointer: undefined on an object that is gone already. -/
def free : Option (Store α) :=
  if (s.cell p).isSome then some (s.delete p) else none

@[simp] lemma new_fresh (a : α) : (s.new a).fresh = s.fresh + 1 := rfl

@[simp] lemma new_cell (a : α) : (s.new a).cell q = if q = s.fresh then some a else s.cell q := rfl

@[simp] lemma modify_cell (f : α → α) :
    (s.modify p f).cell q = if q = p then (s.cell q).map f else s.cell q := rfl

@[simp] lemma delete_cell : (s.delete p).cell q = if q = p then none else s.cell q := rfl

/-- A live object has a name below `fresh`. -/
lemma lt_fresh {a : α} (h : s.cell p = some a) : p < s.fresh := by
  by_contra hp
  rw [s.bound p (by omega)] at h
  cases h

@[simp] lemma deref_some : s.deref (some p) = s.cell p := rfl

lemma assign_some {a : α} (h : s.cell p = some a) (f : α → α) :
    s.assign (some p) f = some (s.modify p f) := by
  simp [assign, h]

lemma free_some {a : α} (h : s.cell p = some a) : s.free p = some (s.delete p) := by
  simp [free, h]

/-! ### A part of every object

`s.view π` shows the part `π` of each live object, such as its links or its data. An assignment to
other fields leaves the view as it was.
-/

variable {β : Type*} {π : α → β}

def view (π : α → β) : ℕ → Option β := fun q => (s.cell q).map π

lemma view_eq_some {b : β} : s.view π p = some b ↔ ∃ a, s.cell p = some a ∧ π a = b := by
  simp [view]

lemma view_empty : (empty : Store α).view π = fun _ => none := rfl

lemma view_new (a : α) : (s.new a).view π = Function.update (s.view π) s.fresh (some (π a)) := by
  funext q
  by_cases hq : q = s.fresh <;> simp [view, hq]

lemma view_delete : (s.delete p).view π = Function.update (s.view π) p none := by
  funext q
  by_cases hq : q = p <;> simp [view, hq]

lemma view_modify {f : α → α} (g : β → β) (h : ∀ a, π (f a) = g (π a)) :
    (s.modify p f).view π = fun q => if q = p then (s.view π q).map g else s.view π q := by
  funext q
  by_cases hq : q = p <;> cases hc : s.cell q <;> simp_all [view]

lemma view_modify_of_same {f : α → α} (h : ∀ a, π (f a) = π a) :
    (s.modify p f).view π = s.view π := by
  funext q
  by_cases hq : q = p <;> cases hc : s.cell q <;> simp_all [view]

end Store

end Core
