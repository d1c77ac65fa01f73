import Mathlib
import LinuxServer.Core.Store

/-!
# Doubly linked lists

`Seg lk b hd xs e` is a doubly linked segment: following `next` from `hd` visits `xs` and leaves
through `e`, and following `prev` goes back the same way and leaves through `b`. A null-terminated
list is a segment from null to null.

The two edits of such a list are `IsList.unlink` and `IsList.link`. Both are stated for a split
`l₁ ++ l₂` of the list, so that the first node, the last node and a node in between are one case.
-/

namespace Core

namespace Dll

/-- The link fields of a node. -/
structure Node where
  prev : Link
  next : Link

/-- The link fields of every live node. -/
abbrev Links := ℕ → Option Node

/-- Write the `next` field of the node a pointer names. -/
def setNext (l v : Link) (lk : Links) : Links := fun q =>
  if l = some q then (lk q).map fun n => { n with next := v } else lk q

/-- Write the `prev` field of the node a pointer names. -/
def setPrev (l v : Link) (lk : Links) : Links := fun q =>
  if l = some q then (lk q).map fun n => { n with prev := v } else lk q

def Seg (lk : Links) : Link → Link → List ℕ → Link → Prop
  | _, hd, [], e => hd = e
  | b, hd, x :: xs, e => hd = some x ∧ ∃ n, lk x = some ⟨b, n⟩ ∧ Seg lk (some x) n xs e

/-- The null-terminated list from `hd`. -/
def IsList (lk : Links) (hd : Link) (xs : List ℕ) : Prop := Seg lk none hd xs none

variable {lk lk' : Links} {b hd e v : Link} {x y : ℕ} {xs ys l₁ l₂ : List ℕ}

@[simp] lemma setNext_none : setNext none v lk = lk := by funext q; simp [setNext]

@[simp] lemma setPrev_none : setPrev none v lk = lk := by funext q; simp [setPrev]

lemma live_setNext {l : Link} (h : ∃ n, lk x = some n) : ∃ n, setNext l v lk x = some n := by
  obtain ⟨n, hn⟩ := h
  by_cases hl : l = some x <;> simp [setNext, hl, hn]

lemma live_setPrev {l : Link} (h : ∃ n, lk x = some n) : ∃ n, setPrev l v lk x = some n := by
  obtain ⟨n, hn⟩ := h
  by_cases hl : l = some x <;> simp [setPrev, hl, hn]

lemma setNext_of_ne {l : Link} (h : l ≠ some x) : setNext l v lk x = lk x := if_neg h

lemma setPrev_of_ne {l : Link} (h : l ≠ some x) : setPrev l v lk x = lk x := if_neg h

@[simp] lemma seg_nil : Seg lk b hd [] e ↔ hd = e := Iff.rfl

lemma seg_cons : Seg lk b hd (x :: xs) e ↔
    hd = some x ∧ ∃ n, lk x = some ⟨b, n⟩ ∧ Seg lk (some x) n xs e := Iff.rfl

/-! ### Reading a segment -/

lemma Seg.head_eq (h : Seg lk b hd xs e) : hd = xs.head?.or e := by
  cases xs with
  | nil => simpa using h
  | cons x xs => simpa using h.1

/-- The two halves of a segment and the seam between them. -/
lemma seg_append : Seg lk b hd (xs ++ ys) e ↔
    Seg lk b hd xs (ys.head?.or e) ∧ Seg lk (xs.getLast?.or b) (ys.head?.or e) ys e := by
  induction xs generalizing b hd with
  | nil =>
    simp only [List.nil_append, List.getLast?_nil, Option.none_or, seg_nil]
    constructor
    · intro h
      have hhd := h.head_eq
      exact ⟨hhd, hhd ▸ h⟩
    · rintro ⟨rfl, h⟩
      exact h
  | cons x xs ih =>
    have hlast : (x :: xs).getLast?.or b = xs.getLast?.or (some x) := by
      cases xs with
      | nil => simp
      | cons y ys => simp [List.getLast?_eq_some_getLast]
    simp only [List.cons_append, seg_cons, ih, hlast]
    constructor
    · rintro ⟨hx, n, hn, h₁, h₂⟩
      exact ⟨⟨hx, n, hn, h₁⟩, h₂⟩
    · rintro ⟨⟨hx, n, hn, h₁⟩, h₂⟩
      exact ⟨hx, n, hn, h₁, h₂⟩

/-- A segment reads only its own nodes. -/
lemma Seg.congr (h : Seg lk b hd xs e) (hlk : ∀ q ∈ xs, lk' q = lk q) : Seg lk' b hd xs e := by
  induction xs generalizing b hd with
  | nil => exact h
  | cons x xs ih =>
    obtain ⟨hx, n, hn, hxs⟩ := h
    exact ⟨hx, n, by rw [hlk x (by simp), hn], ih hxs fun q hq => hlk q (by simp [hq])⟩

/-- Two segments from one node to null are the same: `next` alone decides. -/
lemma Seg.unique {b' : Link} (h : Seg lk b hd xs none) (h' : Seg lk b' hd ys none) : xs = ys := by
  induction xs generalizing b b' hd ys with
  | nil =>
    cases ys with
    | nil => rfl
    | cons y ys => cases h.symm.trans h'.1
  | cons x xs ih =>
    obtain ⟨hx, n, hn, hxs⟩ := h
    cases ys with
    | nil => cases hx.symm.trans h'
    | cons y ys =>
      obtain ⟨hy, m, hm, hys⟩ := h'
      obtain rfl : x = y := by simpa using hx.symm.trans hy
      obtain ⟨-, rfl⟩ : _ ∧ n = m := by simpa using hn.symm.trans hm
      rw [ih hxs hys]

/-- No node is met twice on the way to null: the way from its second visit would be as long as
the way from its first. -/
lemma Seg.nodup (h : Seg lk b hd xs none) : xs.Nodup := by
  induction xs generalizing b hd with
  | nil => exact List.nodup_nil
  | cons x xs ih =>
    obtain ⟨hx, n, hn, hxs⟩ := h
    refine List.nodup_cons.mpr ⟨?_, ih hxs⟩
    intro hmem
    obtain ⟨l, r, rfl⟩ := List.append_of_mem hmem
    have hr := (seg_append.mp hxs).2
    simp only [List.head?_cons, Option.some_or] at hr
    have heq := Seg.unique (hx ▸ ⟨hx, n, hn, hxs⟩ : Seg lk b (some x) (x :: (l ++ x :: r)) none) hr
    have hlen := congrArg List.length heq
    simp at hlen
    omega

lemma IsList.head_eq (h : IsList lk hd xs) : hd = xs.head? := by
  simpa using Seg.head_eq h

lemma IsList.nodup (h : IsList lk hd xs) : xs.Nodup := Seg.nodup h

lemma IsList.congr (h : IsList lk hd xs) (hlk : ∀ q ∈ xs, lk' q = lk q) : IsList lk' hd xs :=
  Seg.congr h hlk

@[simp] lemma isList_nil : IsList lk hd [] ↔ hd = none := Iff.rfl

lemma isList_append : IsList lk hd (l₁ ++ l₂) ↔
    Seg lk none hd l₁ l₂.head? ∧ Seg lk l₁.getLast? l₂.head? l₂ none := by
  simp [IsList, seg_append]

/-- The link fields of a node are its neighbours in the list. -/
lemma IsList.links_at (h : IsList lk hd (l₁ ++ x :: l₂)) :
    lk x = some ⟨l₁.getLast?, l₂.head?⟩ := by
  obtain ⟨-, -, n, hn, hseg⟩ := isList_append.mp h
  rw [hn, hseg.head_eq]
  simp

lemma IsList.links_head (h : IsList lk hd (x :: xs)) : lk x = some ⟨none, xs.head?⟩ := by
  have h' : IsList lk hd ([] ++ x :: xs) := h
  exact h'.links_at

lemma IsList.live (h : IsList lk hd xs) (hx : x ∈ xs) : ∃ n, lk x = some n := by
  obtain ⟨l, r, rfl⟩ := List.append_of_mem hx
  exact ⟨_, h.links_at⟩

/-- A node of the list leads on to nodes of the list. -/
lemma IsList.next_mem (h : IsList lk hd xs) (hx : x ∈ xs) {n : Node} (hn : lk x = some n)
    (hy : n.next = some y) : y ∈ xs := by
  obtain ⟨l, r, rfl⟩ := List.append_of_mem hx
  cases hn.symm.trans h.links_at
  exact List.mem_append_right _ (List.mem_cons_of_mem x (List.mem_of_head? hy))

/-- A node of the list leads back to nodes of the list. -/
lemma IsList.prev_mem (h : IsList lk hd xs) (hx : x ∈ xs) {n : Node} (hn : lk x = some n)
    (hy : n.prev = some y) : y ∈ xs := by
  obtain ⟨l, r, rfl⟩ := List.append_of_mem hx
  cases hn.symm.trans h.links_at
  exact List.mem_append_left _ (List.mem_of_getLast? hy)

/-- `prev` is the inverse of `next`. -/
theorem IsList.next_iff_prev (h : IsList lk hd xs) (hx : x ∈ xs) (hy : y ∈ xs) {n m : Node}
    (hn : lk x = some n) (hm : lk y = some m) : n.next = some y ↔ m.prev = some x := by
  constructor
  · intro hnext
    obtain ⟨l, r, rfl⟩ := List.append_of_mem hx
    cases hn.symm.trans h.links_at
    obtain ⟨r, rfl⟩ := List.head?_eq_some_iff.mp hnext
    have h' : IsList lk hd ((l ++ [x]) ++ y :: r) := by simpa using h
    cases hm.symm.trans h'.links_at
    exact List.getLast?_concat
  · intro hprev
    obtain ⟨l, r, rfl⟩ := List.append_of_mem hy
    cases hm.symm.trans h.links_at
    obtain ⟨l, rfl⟩ := List.getLast?_eq_some_iff.mp hprev
    have h' : IsList lk hd (l ++ x :: (y :: r)) := by simpa using h
    cases hn.symm.trans h'.links_at
    rfl

/-! ### Relinking the ends of a segment -/

lemma Seg.setNext_of_notMem {l : Link} (h : Seg lk b hd xs e) (hl : ∀ p, l = some p → p ∉ xs) :
    Seg (setNext l v lk) b hd xs e :=
  h.congr fun q hq => setNext_of_ne fun heq => hl q heq hq

lemma Seg.setPrev_of_notMem {l : Link} (h : Seg lk b hd xs e) (hl : ∀ p, l = some p → p ∉ xs) :
    Seg (setPrev l v lk) b hd xs e :=
  h.congr fun q hq => setPrev_of_ne fun heq => hl q heq hq

/-- Writing `next` of the last node moves the exit of the segment. -/
lemma Seg.setNext_last (h : Seg lk b hd (xs ++ [x]) e) (hx : x ∉ xs) :
    Seg (setNext (some x) v lk) b hd (xs ++ [x]) v := by
  obtain ⟨hxs, -, n, hn, -⟩ := seg_append.mp h
  refine seg_append.mpr ⟨hxs.setNext_of_notMem (by rintro p ⟨rfl⟩; exact hx), rfl, v, ?_, rfl⟩
  simp [setNext, hn]

/-- Writing `prev` of the first node moves the entry of the segment. -/
lemma Seg.setPrev_first (h : Seg lk b hd (x :: xs) e) (hx : x ∉ xs) :
    Seg (setPrev (some x) v lk) v hd (x :: xs) e := by
  obtain ⟨hhd, n, hn, hxs⟩ := h
  refine ⟨hhd, n, ?_, hxs.setPrev_of_notMem (by rintro p ⟨rfl⟩; exact hx)⟩
  simp [setPrev, hn]

/-- The first half of a list, its last node now leading to `v`. -/
lemma Seg.redirect_last (h : Seg lk b hd xs e) (hnd : xs.Nodup) :
    Seg (setNext xs.getLast? v lk) b (xs.head?.or v) xs v := by
  rcases List.eq_nil_or_concat' xs with rfl | ⟨l, p, rfl⟩
  · simp
  · have hp : p ∉ l := fun hp => (List.nodup_append.mp hnd).2.2 p hp p (by simp) rfl
    have hlast := h.setNext_last (v := v) hp
    rw [hlast.head_eq] at hlast
    simpa using hlast

/-- The second half of a list, its first node now led to from `v`. -/
lemma Seg.redirect_first (h : Seg lk b xs.head? xs none) (hnd : xs.Nodup) :
    Seg (setPrev xs.head? v lk) v xs.head? xs none := by
  cases xs with
  | nil => simp
  | cons x xs => exact Seg.setPrev_first h (List.nodup_cons.mp hnd).1

/-! ### The two edits of a list

Each is stated for any links `lk'` that are the edited ones on the list, so that the order of the
assignments and what happens to other nodes do not matter.
-/

/-- Past `x`: its neighbours now lead to each other. -/
theorem IsList.unlink (h : IsList lk hd (l₁ ++ x :: l₂))
    (hlk : ∀ q ∈ l₁ ++ l₂, lk' q = setPrev l₂.head? l₁.getLast? (setNext l₁.getLast? l₂.head? lk) q) :
    IsList lk' (l₁ ++ l₂).head? (l₁ ++ l₂) := by
  obtain ⟨hnd₁, hnd₂, hdisj⟩ := List.nodup_append.mp h.nodup
  obtain ⟨h₁, hx, n, hn, h₂⟩ := isList_append.mp h
  obtain rfl : n = l₂.head? := by simpa using h₂.head_eq
  have hne₁ : ∀ p, l₂.head? = some p → p ∉ l₁ := fun p hp hmem =>
    hdisj p hmem p (List.mem_cons_of_mem x (List.mem_of_head? hp)) rfl
  have hne₂ : ∀ p, l₁.getLast? = some p → p ∉ l₂ := fun p hp hmem =>
    hdisj p (List.mem_of_getLast? hp) p (List.mem_cons_of_mem x hmem) rfl
  refine IsList.congr (isList_append.mpr ⟨?_, ?_⟩) hlk
  · rw [List.head?_append]
    exact (h₁.redirect_last hnd₁).setPrev_of_notMem hne₁
  · exact (h₂.setNext_of_notMem hne₂).redirect_first (List.nodup_cons.mp hnd₂).2

/-- The node `x`, its own fields set, put between two neighbours that now lead to it. -/
theorem IsList.link (h : IsList lk hd (l₁ ++ l₂)) (hx : lk' x = some ⟨l₁.getLast?, l₂.head?⟩)
    (hlk : ∀ q ∈ l₁ ++ l₂, lk' q = setPrev l₂.head? (some x) (setNext l₁.getLast? (some x) lk) q) :
    IsList lk' (l₁ ++ x :: l₂).head? (l₁ ++ x :: l₂) := by
  obtain ⟨hnd₁, hnd₂, hdisj⟩ := List.nodup_append.mp h.nodup
  obtain ⟨h₁, h₂⟩ := isList_append.mp h
  have hne₁ : ∀ p, l₂.head? = some p → p ∉ l₁ := fun p hp hmem =>
    hdisj p hmem p (List.mem_of_head? hp) rfl
  have hne₂ : ∀ p, l₁.getLast? = some p → p ∉ l₂ := fun p hp hmem =>
    hdisj p (List.mem_of_getLast? hp) p hmem rfl
  refine isList_append.mpr ⟨?_, rfl, l₂.head?, hx, ?_⟩
  · rw [List.head?_append]
    exact ((h₁.redirect_last hnd₁).setPrev_of_notMem hne₁).congr fun q hq =>
      hlk q (List.mem_append_left _ hq)
  · exact ((h₂.setNext_of_notMem hne₂).redirect_first hnd₂).congr fun q hq =>
      hlk q (List.mem_append_right _ hq)

end Dll

/-! ### Stores of linked objects -/

open Dll

/-- A type of objects with link fields. -/
class Linked (α : Type*) where
  node : α → Node
  setNode : α → Node → α
  node_setNode : ∀ a n, node (setNode a n) = n
  setNode_setNode : ∀ a n m, setNode (setNode a n) m = setNode a m

namespace Store

open Linked

variable {α : Type*} [Linked α]

/-- `l->next = v` -/
def setNext (s : Store α) (l v : Link) : Option (Store α) :=
  s.assign l fun a => setNode a { node a with next := v }

/-- `l->prev = v` -/
def setPrev (s : Store α) (l v : Link) : Option (Store α) :=
  s.assign l fun a => setNode a { node a with prev := v }

def links (s : Store α) : Links := s.view node

/-- An object with its links blanked: what it carries besides them. -/
def blank (a : α) : α := setNode a ⟨none, none⟩

def data (s : Store α) : ℕ → Option α := s.view blank

/-- `s'` is `s` with the links `lk`. -/
structure Relinked (s s' : Store α) (lk : Links) : Prop where
  links : s'.links = lk
  data : s'.data = s.data
  fresh : s'.fresh = s.fresh

/-- `s'` is `s` without the objects `gone`, links apart. -/
structure Removed (s s' : Store α) (gone : List ℕ) : Prop where
  data : ∀ q, s'.data q = if q ∈ gone then none else s.data q
  fresh : s'.fresh = s.fresh

variable {s s' : Store α} {a : α} {p x : ℕ} {n : Node} {lk : Links} {hd : Link}
  {xs l₁ l₂ : List ℕ}

lemma links_of_cell (h : s.cell p = some a) : s.links p = some (node a) :=
  (s.view_eq_some p).mpr ⟨a, h, rfl⟩

lemma data_of_cell (h : s.cell p = some a) : s.data p = some (blank a) :=
  (s.view_eq_some p).mpr ⟨a, h, rfl⟩

lemma cell_of_links (h : s.links p = some n) : ∃ a, s.cell p = some a ∧ node a = n :=
  (s.view_eq_some p).mp h

lemma cell_of_data (h : s.data p = some a) : ∃ b, s.cell p = some b ∧ blank b = a :=
  (s.view_eq_some p).mp h

/-- A list in a store has at most as many nodes as there are names. -/
lemma length_le_fresh (h : IsList s.links hd xs) : xs.length ≤ s.fresh := by
  have hsub : xs ⊆ List.range s.fresh := by
    intro q hq
    obtain ⟨n, hn⟩ := h.live hq
    obtain ⟨a, ha, -⟩ := cell_of_links hn
    exact List.mem_range.mpr (s.lt_fresh q ha)
  simpa using (List.subperm_of_subset h.nodup hsub).length_le

/-- A node taken from the list at `hd` is in the store. -/
lemma cell_of_mem (h : IsList s.links hd xs) (hx : x ∈ xs) : ∃ a, s.cell x = some a := by
  obtain ⟨n, hn⟩ := h.live hx
  exact (cell_of_links hn).imp fun _ => And.left

/-- An assignment to fields other than the links. -/
lemma assign_data {f : α → α} (hnode : ∀ a, node (f a) = node a)
    (hblank : ∀ a, blank (f a) = f (blank a)) (h : s.cell p = some a) :
    ∃ s', s.assign (some p) f = some s' ∧ s'.links = s.links ∧ s'.fresh = s.fresh ∧
      ∀ q, s'.data q = if q = p then (s.data q).map f else s.data q :=
  ⟨_, s.assign_some p h f, s.view_modify_of_same p hnode, rfl,
    fun q => congrFun (s.view_modify p f hblank) q⟩

/-! Link assignments, one after the other, keep to `Relinked`. -/

lemma Relinked.refl (s : Store α) : s.Relinked s s.links := ⟨rfl, rfl, rfl⟩

lemma Relinked.setNext (r : s.Relinked s' lk) (v : Link) (h : ∃ n, lk p = some n) :
    ∃ s'', s'.setNext (some p) v = some s'' ∧ s.Relinked s'' (Dll.setNext (some p) v lk) := by
  obtain ⟨n, hn⟩ := h
  obtain ⟨t, ht, -⟩ := cell_of_links (r.links ▸ hn)
  refine ⟨_, s'.assign_some p ht _, ?_, Eq.trans ?_ r.data, r.fresh⟩
  · rw [← r.links]
    refine (s'.view_modify p (fun n => { n with next := v }) fun a => node_setNode a _).trans ?_
    funext q
    simp [Dll.setNext, eq_comm, Store.links]
  · exact s'.view_modify_of_same p fun a => setNode_setNode a _ _

lemma Relinked.setPrev (r : s.Relinked s' lk) (v : Link) (h : ∃ n, lk p = some n) :
    ∃ s'', s'.setPrev (some p) v = some s'' ∧ s.Relinked s'' (Dll.setPrev (some p) v lk) := by
  obtain ⟨n, hn⟩ := h
  obtain ⟨t, ht, -⟩ := cell_of_links (r.links ▸ hn)
  refine ⟨_, s'.assign_some p ht _, ?_, Eq.trans ?_ r.data, r.fresh⟩
  · rw [← r.links]
    refine (s'.view_modify p (fun n => { n with prev := v }) fun a => node_setNode a _).trans ?_
    funext q
    simp [Dll.setPrev, eq_comm, Store.links]
  · exact s'.view_modify_of_same p fun a => setNode_setNode a _ _

/-- The deletion of a node that the other nodes of its list no longer lead to. -/
lemma Relinked.free (r : s.Relinked s' lk) (hl : IsList s.links hd (l₁ ++ x :: l₂))
    (hlive : ∃ n, lk x = some n)
    (hlk : ∀ q ∈ l₁ ++ l₂,
      lk q = Dll.setPrev l₂.head? l₁.getLast? (Dll.setNext l₁.getLast? l₂.head? s.links) q) :
    ∃ s'', s'.free x = some s'' ∧ IsList s''.links (l₁ ++ l₂).head? (l₁ ++ l₂) ∧
      s.Removed s'' [x] ∧ ∀ q, q ≠ x → s''.links q = lk q := by
  obtain ⟨n, hn⟩ := hlive
  have hx : x ∉ l₁ ++ l₂ := (List.nodup_cons.mp (List.nodup_middle.mp hl.nodup)).1
  obtain ⟨a, ha, -⟩ := cell_of_links (r.links ▸ hn)
  have hlinks : ∀ q, q ≠ x → (s'.delete x).links q = lk q := by
    intro q hq
    rw [Store.links, s'.view_delete, Function.update_of_ne hq, ← Store.links, r.links]
  refine ⟨s'.delete x, s'.free_some x ha, ?_, ⟨?_, r.fresh⟩, hlinks⟩
  · exact hl.unlink fun q hq => (hlinks q fun heq => hx (heq ▸ hq)).trans (hlk q hq)
  · intro q
    rw [Store.data, s'.view_delete, ← Store.data, r.data]
    by_cases hq : q = x <;> simp [hq]

end Store

end Core
