import LinuxServer.TimeWheel.Basic

/-!
# What the operations of the time wheel do

Each operation changes the list of one slot: `add_timer` puts a timer at its front, `del_timer`
takes one out, `tick` visits all timers of the current slot and deletes those it fires. One theorem
an operation says so, and what becomes of the timers' data.
-/

namespace LinuxServer

open Core Core.Dll

variable {D A : Type*}

namespace TwTimer

/-- What the callback of a timer does, once it is set. -/
def call (t : TwTimer D A) : Option A := t.cbFunc.bind fun f => t.userData.map f

/-- A timer after a tick has come to its slot. -/
def visit (t : TwTimer D A) : Option (TwTimer D A) :=
  if 0 < t.rotation then some { t with rotation := t.rotation - 1 } else none

end TwTimer

namespace TimeWheel

/-- `w'` is `w` with `new` in place of the list `old` of the slot `i`. -/
structure Edited (w w' : TimeWheel D A) (i : Fin N) (old new : List ℕ) : Prop where
  isList : IsList w'.store.links (w'.slots i) new
  slots : ∀ j, j ≠ i → w'.slots j = w.slots j
  links : ∀ q, q ∉ old → q ∉ new → w'.store.links q = w.store.links q
  curSlot : w'.curSlot = w.curSlot

variable {w w' w'' : TimeWheel D A} {i j : Fin N} {p timer : ℕ} {t : TwTimer D A}
  {xs ys old new l₁ l₂ : List ℕ}

/-- The lists of the other slots are still there. -/
lemma Edited.isList_of_ne (h : w.Edited w' i old new) (hj : j ≠ i)
    (hl : IsList w.store.links (w.slots j) xs) (hold : ∀ q ∈ xs, q ∉ old)
    (hnew : ∀ q ∈ xs, q ∉ new) : IsList w'.store.links (w'.slots j) xs := by
  rw [h.slots j hj]
  exact hl.congr fun q hq => h.links q (hold q hq) (hnew q hq)

lemma Edited.trans (h : w.Edited w' i old xs) (h' : w'.Edited w'' i xs new) (hxs : xs ⊆ old) :
    w.Edited w'' i old new where
  isList := h'.isList
  slots j hj := (h'.slots j hj).trans (h.slots j hj)
  links q hold hnew := by
    have hq : q ∉ xs := fun hq => hold (hxs hq)
    exact (h'.links q hq hnew).trans (h.links q hold hq)
  curSlot := h'.curSlot.trans h.curSlot

/-! ### `add_timer` -/

/-- The timer that `add_timer` makes, its callback not set yet. -/
def newTimer (w : TimeWheel D A) (timeout : ℤ) : TwTimer D A :=
  ⟨⟨none, none⟩, ticksOf timeout / N, slotOf (w.curSlot + ticksOf timeout % N), none, none⟩

/-- The assignments that put a new timer before the first one of a list. -/
lemma push_spec {s : Store (TwTimer D A)} {hd : Link} (hl : IsList s.links hd ys) (hp : timer ∉ ys)
    (hn : s.links timer = some ⟨none, none⟩) :
    ∃ s', (if hd = none then some s else do
        let s ← s.setNext (some timer) hd
        s.setPrev hd (some timer)) = some s' ∧
      IsList s'.links (some timer) (timer :: ys) ∧
      (∀ q, q ∉ timer :: ys → s'.links q = s.links q) ∧ s'.data = s.data ∧ s'.fresh = s.fresh := by
  cases ys with
  | nil =>
    obtain rfl : hd = none := hl
    exact ⟨s, rfl, ⟨rfl, none, hn, rfl⟩, fun _ _ => rfl, rfl, rfl⟩
  | cons y ys =>
    obtain rfl : hd = some y := hl.head_eq
    have hne : y ≠ timer := fun heq => hp (heq ▸ List.mem_cons_self)
    obtain ⟨s₁, h₁, r₁⟩ := (Store.Relinked.refl s).setNext (p := timer) (some y) ⟨_, hn⟩
    obtain ⟨s₂, h₂, r₂⟩ := r₁.setPrev (some timer) (live_setNext (hl.live List.mem_cons_self))
    refine ⟨s₂, by simp [h₁, h₂], ?_, ?_, r₂.data, r₂.fresh⟩
    · have hl' : IsList s.links (some y) ([] ++ y :: ys) := hl
      apply hl'.link
      · simp [r₂.links, Dll.setNext, Dll.setPrev, hn, hne]
      · intro q hq
        have hq' : timer ≠ q := fun heq => hp (heq ▸ hq)
        simp [r₂.links, Dll.setNext, Dll.setPrev, hq']
    · intro q hq
      obtain ⟨hq₁, hq₂⟩ : ¬ q = timer ∧ ¬ q = y := by
        constructor <;> rintro rfl <;> simp at hq
      simp [r₂.links, Dll.setNext, Dll.setPrev, Ne.symm hq₁, Ne.symm hq₂]

theorem addTimer_spec {timeout : ℤ} (ht : 0 ≤ timeout)
    (hl : IsList w.store.links (w.slots (w.newTimer timeout).timeSlot) ys) :
    ∃ w', w.addTimer timeout = some (w', some w.store.fresh) ∧
      w.Edited w' (w.newTimer timeout).timeSlot ys (w.store.fresh :: ys) ∧
      w'.store.data = Function.update w.store.data w.store.fresh (some (w.newTimer timeout)) ∧
      w'.store.fresh = w.store.fresh + 1 := by
  have hp : w.store.fresh ∉ ys := by
    intro hmem
    obtain ⟨a, ha⟩ := Store.cell_of_mem hl hmem
    exact absurd (w.store.lt_fresh _ ha) (lt_irrefl _)
  have hlinks : (w.store.new (w.newTimer timeout)).links =
      Function.update w.store.links w.store.fresh (some ⟨none, none⟩) := w.store.view_new _
  have hother : ∀ q, q ≠ w.store.fresh →
      (w.store.new (w.newTimer timeout)).links q = w.store.links q := by
    intro q hq
    rw [hlinks, Function.update_of_ne hq]
  obtain ⟨s, hs, hlist, hout, hdata, hfresh⟩ := push_spec
    (hl.congr fun q hq => hother q fun heq => hp (heq ▸ hq)) hp
    (by rw [hlinks, Function.update_self])
  refine ⟨⟨s, Function.update w.slots (w.newTimer timeout).timeSlot (some w.store.fresh),
    w.curSlot⟩, ?_, ⟨?_, fun j hj => Function.update_of_ne hj _ _, ?_, rfl⟩,
    hdata.trans (w.store.view_new _), hfresh⟩
  · rw [addTimer, if_neg (not_lt.mpr ht)]
    show (if w.slots (w.newTimer timeout).timeSlot = none then _ else _) = _
    split at hs
    next hnone =>
      rw [if_pos hnone]
      cases hs
      rfl
    next hsome =>
      rw [if_neg hsome]
      obtain ⟨s₁, h₁, h₂⟩ := Option.bind_eq_some_iff.mp hs
      simp only [newTimer] at h₁ h₂ ⊢
      simp [h₁, h₂]
  · show IsList s.links (Function.update w.slots _ _ _) _
    rw [Function.update_self]
    exact hlist
  · intro q _ hq
    have hne : q ≠ w.store.fresh := fun heq => hq (heq ▸ List.mem_cons_self)
    exact (hout q hq).trans (hother q hne)

/-- `add_timer` and the assignments of its caller. -/
theorem addTimer_setCallback_spec {timeout : ℤ} (ht : 0 ≤ timeout) (f : D → A) (d : D)
    (hl : IsList w.store.links (w.slots (w.newTimer timeout).timeSlot) ys) :
    ∃ w₁ w', w.addTimer timeout = some (w₁, some w.store.fresh) ∧
      w₁.setCallback (some w.store.fresh) f d = some w' ∧
      w.Edited w' (w.newTimer timeout).timeSlot ys (w.store.fresh :: ys) ∧
      w'.store.data = Function.update w.store.data w.store.fresh
        (some { w.newTimer timeout with cbFunc := some f, userData := some d }) ∧
      w'.store.fresh = w.store.fresh + 1 := by
  obtain ⟨w₁, hw₁, hed, hdata, hfresh⟩ := addTimer_spec ht hl
  obtain ⟨t, hcell, -⟩ := Store.cell_of_data
    (show w₁.store.data w.store.fresh = some _ by rw [hdata, Function.update_self])
  obtain ⟨s, hs, hlinks, hsfresh, hsdata⟩ := Store.assign_data
    (f := fun t => { t with cbFunc := some f, userData := some d }) (fun _ => rfl) (fun _ => rfl) hcell
  refine ⟨w₁, ⟨s, w₁.slots, w₁.curSlot⟩, hw₁, ?_, ⟨?_, hed.slots, ?_, hed.curSlot⟩, ?_,
    hsfresh.trans hfresh⟩
  · rw [setCallback, hs, Option.map_some]
  · exact hed.isList.congr fun q _ => congrFun hlinks q
  · intro q hq hq'
    exact (congrFun hlinks q).trans (hed.links q hq hq')
  · funext q
    rw [hsdata, hdata]
    by_cases hq : q = w.store.fresh
    · subst hq
      simp
    · simp [hq]

/-! ### Removal -/

/-- An assignment to `prev` of the next node, if there is one. -/
lemma setPrev_next_spec {s s' : Store (TwTimer D A)} {lk : Links} (r : s.Relinked s' lk) (v : Link)
    (hlive : ∀ q ∈ l₂, ∃ n, lk q = some n) :
    ∃ s'', (if l₂.head? = none then some s' else s'.setPrev l₂.head? v) = some s'' ∧
      s.Relinked s'' (Dll.setPrev l₂.head? v lk) := by
  cases l₂ with
  | nil => exact ⟨s', rfl, by simpa using r⟩
  | cons y l₂ => exact r.setPrev v (hlive y List.mem_cons_self)

/-- The two ways in which a timer is taken out of the list of a slot. -/
lemma unlink_spec {s : Store (TwTimer D A)} {hd : Link} {x : ℕ}
    (hl : IsList s.links hd (l₁ ++ x :: l₂)) :
    ∃ s', (if some x = hd then if l₂.head? = none then some s else s.setPrev l₂.head? none
      else do
        let s ← s.setNext l₁.getLast? l₂.head?
        if l₂.head? = none then some s else s.setPrev l₂.head? l₁.getLast?) = some s' ∧
      s.Relinked s' (Dll.setPrev l₂.head? l₁.getLast? (Dll.setNext l₁.getLast? l₂.head? s.links)) ∧
      (l₁ ++ l₂).head? = if some x = hd then l₂.head? else hd := by
  have hx : x ∉ l₁ ++ l₂ := (List.nodup_cons.mp (List.nodup_middle.mp hl.nodup)).1
  have hlive₂ : ∀ q ∈ l₂, ∃ n, s.links q = some n := fun q hq => hl.live (by simp [hq])
  rcases List.eq_nil_or_concat' l₁ with rfl | ⟨l₁, y, rfl⟩
  · have hhd : some x = hd := hl.head_eq.symm
    obtain ⟨s', hs', r⟩ := setPrev_next_spec (Store.Relinked.refl s) none hlive₂
    rw [if_pos hhd, if_pos hhd, List.getLast?_nil, setNext_none]
    exact ⟨s', hs', r, rfl⟩
  · have hhd : some x ≠ hd := by
      rw [hl.head_eq]
      rintro heq
      cases l₁ <;> simp at heq <;> simp [heq] at hx
    have hy : (l₁ ++ [y]).getLast? = some y := by simp
    obtain ⟨s₁, h₁, r₁⟩ := (Store.Relinked.refl s).setNext l₂.head?
      (hl.live (by simp) : ∃ n, s.links y = some n)
    obtain ⟨s₂, h₂, r₂⟩ := setPrev_next_spec r₁ (some y) fun q hq => live_setNext (hlive₂ q hq)
    rw [if_neg hhd, if_neg hhd, hy]
    refine ⟨s₂, by rw [h₁]; exact h₂, r₂, ?_⟩
    rw [hl.head_eq]
    cases l₁ <;> rfl

theorem remove_spec {x : ℕ} (hl : IsList w.store.links (w.slots i) (l₁ ++ x :: l₂)) :
    ∃ w', w.remove i x = some w' ∧ w.Edited w' i (l₁ ++ x :: l₂) (l₁ ++ l₂) ∧
      w.store.Removed w'.store [x] := by
  obtain ⟨t, ht, hnode⟩ := Store.cell_of_links hl.links_at
  have hnext : t.next = l₂.head? := congrArg Node.next hnode
  have hprev : t.prev = l₁.getLast? := congrArg Node.prev hnode
  obtain ⟨s, hs, r, hhead⟩ := unlink_spec hl
  obtain ⟨s', hs', hlist, hrem, hout⟩ := r.free hl
    (live_setPrev (live_setNext (hl.live (by simp)))) fun _ _ => rfl
  have hlinks : ∀ q, q ∉ l₁ ++ x :: l₂ → s'.links q = w.store.links q := by
    intro q hq
    have hq₁ : l₁.getLast? ≠ some q := fun h => hq (by simp [List.mem_of_getLast? h])
    have hq₂ : l₂.head? ≠ some q := fun h => hq (by simp [List.mem_of_head? h])
    rw [hout q fun heq => hq (by simp [heq]), setPrev_of_ne hq₂, setNext_of_ne hq₁]
  simp only [remove, ht, hnext, hprev, Option.bind_eq_bind, Option.bind_some]
  split
  next hfirst =>
    simp only [if_pos hfirst] at hs hhead
    refine ⟨⟨s', Function.update w.slots i l₂.head?, w.curSlot⟩, ?_, ⟨?_, fun j hj =>
      Function.update_of_ne hj _ _, fun q hq _ => hlinks q hq, rfl⟩, hrem⟩
    · split at hs
      next hnone =>
        cases hs
        rw [if_pos hnone, hs', Option.bind_some]
      next hsome => rw [if_neg hsome, hs, Option.bind_some, hs', Option.bind_some]
    · show IsList s'.links (Function.update w.slots _ _ _) _
      rwa [Function.update_self, ← hhead]
  next hfirst =>
    simp only [if_neg hfirst] at hs hhead
    refine ⟨⟨s', w.slots, w.curSlot⟩, ?_, ⟨hhead ▸ hlist, fun _ _ => rfl,
      fun q hq _ => hlinks q hq, rfl⟩, hrem⟩
    obtain ⟨s₁, h₁, h₂⟩ := Option.bind_eq_some_iff.mp hs
    rw [h₁, Option.bind_some]
    split at h₂
    next hnone =>
      cases h₂
      rw [if_pos hnone, hs', Option.bind_some]
    next hsome => rw [if_neg hsome, h₂, Option.bind_some, hs', Option.bind_some]

theorem delTimer_spec {x : ℕ} (hl : IsList w.store.links (w.slots i) (l₁ ++ x :: l₂))
    (ht : w.store.cell x = some t) (hi : t.timeSlot = i) :
    ∃ w', w.delTimer (some x) = some w' ∧ w.Edited w' i (l₁ ++ x :: l₂) (l₁ ++ l₂) ∧
      w.store.Removed w'.store [x] := by
  obtain ⟨w', hw', hed, hrem⟩ := remove_spec hl
  refine ⟨w', ?_, hed, hrem⟩
  rw [delTimer, ht, Option.bind_eq_bind, Option.bind_some, hi, hw']

/-! ### `tick` -/

/-- What the loop of `tick` does to the timers `l₂` of the slot, with `l₁` behind it: each is
visited, and those that are due are called, in order, and deleted. -/
structure Visited (w w' : TimeWheel D A) (calls : List (ℕ × A)) (l₁ l₂ : List ℕ) : Prop where
  edited : w.Edited w' w.curSlot (l₁ ++ l₂) (l₁ ++ l₂.filter fun p => (w'.store.data p).isSome)
  data : ∀ q, w'.store.data q = if q ∈ l₂ then (w.store.data q).bind TwTimer.visit
    else w.store.data q
  fresh : w'.store.fresh = w.store.fresh
  timers : (calls.map Prod.fst).Sublist l₂
  calls : ∀ p a, (p, a) ∈ calls ↔
    p ∈ l₂ ∧ ∃ t, w.store.data p = some t ∧ t.rotation = 0 ∧ t.call = some a

/-- A timer with rotations left loses one and keeps its links. -/
lemma wait_spec (ht : w.store.cell p = some t) (hrot : 0 < t.rotation) :
    ∃ s, (w.store.assign (some p) fun t => { t with rotation := t.rotation - 1 }) = some s ∧
      s.links = w.store.links ∧ s.fresh = w.store.fresh ∧
      ∀ q, s.data q = if q = p then (w.store.data q).bind TwTimer.visit else w.store.data q := by
  obtain ⟨s, hs, hlinks, hfresh, hdata⟩ := Store.assign_data
    (f := fun t => { t with rotation := t.rotation - 1 }) (fun _ => rfl) (fun _ => rfl) ht
  refine ⟨s, hs, hlinks, hfresh, ?_⟩
  intro q
  rw [hdata]
  by_cases hq : q = p
  · subst hq
    have hpos : 0 < (Store.blank t).rotation := hrot
    simp [Store.data_of_cell ht, TwTimer.visit, hpos]
  · simp [hq]

variable {w₁ : TimeWheel D A} {calls : List (ℕ × A)} {x : ℕ} {a : A}

/-- The visit of one more timer in front, which `w₁` has behind it. -/
lemma Visited.wait (h : w₁.Visited w' calls (l₁ ++ [x]) l₂) (hx : x ∉ l₁ ++ l₂)
    (hed : w.Edited w₁ w.curSlot (l₁ ++ x :: l₂) (l₁ ++ x :: l₂))
    (hdata : ∀ q, w₁.store.data q =
      if q = x then (w.store.data q).bind TwTimer.visit else w.store.data q)
    (hfresh : w₁.store.fresh = w.store.fresh) (ht : w.store.data x = some t)
    (hrot : 0 < t.rotation) : w.Visited w' calls l₁ (x :: l₂) := by
  have hx₂ : x ∉ l₂ := fun hmem => hx (List.mem_append_right _ hmem)
  have hold : ∀ q ∈ l₂, w₁.store.data q = w.store.data q := by
    intro q hq
    rw [hdata, if_neg fun heq : q = x => hx₂ (heq ▸ hq)]
  have hlive : (w'.store.data x).isSome = true := by
    rw [h.data, if_neg hx₂, hdata, if_pos rfl, ht, Option.bind_some, TwTimer.visit, if_pos hrot]
    rfl
  refine ⟨?_, ?_, h.fresh.trans hfresh, h.timers.cons _, ?_⟩
  · have hed' := h.edited
    rw [hed.curSlot, List.append_assoc, List.append_assoc] at hed'
    rw [List.filter_cons, if_pos hlive]
    exact hed.trans hed' fun q hq => hq
  · intro q
    rw [h.data]
    by_cases hq : q ∈ l₂
    · rw [if_pos hq, if_pos (List.mem_cons_of_mem x hq), hold q hq]
    · simp [hq, hdata]
  · intro p a
    rw [h.calls]
    constructor
    · rintro ⟨hp, t', ht', hcall⟩
      exact ⟨List.mem_cons_of_mem x hp, t', hold p hp ▸ ht', hcall⟩
    · rintro ⟨hp, t', ht', hzero, hcall⟩
      rcases List.mem_cons.mp hp with rfl | hp
      · obtain rfl : t = t' := Option.some.inj (ht.symm.trans ht')
        omega
      · exact ⟨hp, t', (hold p hp).trans ht', hzero, hcall⟩

/-- The visit of one more timer in front, which is called and deleted. -/
lemma Visited.fire (h : w₁.Visited w' calls l₁ l₂) (hx : x ∉ l₁ ++ l₂)
    (hed : w.Edited w₁ w.curSlot (l₁ ++ x :: l₂) (l₁ ++ l₂))
    (hrem : w.store.Removed w₁.store [x]) (ht : w.store.data x = some t) (hrot : t.rotation = 0)
    (hcall : t.call = some a) : w.Visited w' ((x, a) :: calls) l₁ (x :: l₂) := by
  have hx₂ : x ∉ l₂ := fun hmem => hx (List.mem_append_right _ hmem)
  have hold : ∀ q ∈ l₂, w₁.store.data q = w.store.data q := by
    intro q hq
    rw [hrem.data, if_neg]
    simpa using fun heq : q = x => hx₂ (heq ▸ hq)
  have hgone : ¬ (w'.store.data x).isSome = true := by
    rw [h.data, if_neg hx₂, hrem.data, if_pos List.mem_cons_self]
    exact Bool.false_ne_true
  refine ⟨?_, ?_, h.fresh.trans hrem.fresh, h.timers.cons_cons x, ?_⟩
  · have hed' := h.edited
    rw [hed.curSlot] at hed'
    rw [List.filter_cons, if_neg hgone]
    exact hed.trans hed' fun q hq => by
      rcases List.mem_append.mp hq with hq | hq <;> simp [hq]
  · intro q
    rw [h.data]
    by_cases hq : q ∈ l₂
    · rw [if_pos hq, if_pos (List.mem_cons_of_mem x hq), hold q hq]
    · rw [if_neg hq, hrem.data]
      by_cases hqx : q = x
      · subst hqx
        simp [ht, TwTimer.visit, hrot]
      · simp [hq, hqx]
  · intro p b
    rw [List.mem_cons, h.calls]
    constructor
    · rintro (heq | ⟨hp, t', ht', hcall'⟩)
      · obtain ⟨rfl, rfl⟩ : p = x ∧ b = a := by simpa using heq
        exact ⟨List.mem_cons_self, t, ht, hrot, hcall⟩
      · exact ⟨List.mem_cons_of_mem x hp, t', hold p hp ▸ ht', hcall'⟩
    · rintro ⟨hp, t', ht', hzero, hcall'⟩
      rcases List.mem_cons.mp hp with rfl | hp
      · obtain rfl : t = t' := Option.some.inj (ht.symm.trans ht')
        left
        rw [Option.some.inj (hcall.symm.trans hcall')]
      · exact .inr ⟨hp, t', (hold p hp).trans ht', hzero, hcall'⟩

theorem tickLoop_spec : ∀ (l₂ l₁ : List ℕ) (fuel : ℕ) (w : TimeWheel D A),
    IsList w.store.links (w.slots w.curSlot) (l₁ ++ l₂) →
    (∀ p ∈ l₂, ∀ t, w.store.data p = some t → t.call ≠ none) → l₂.length < fuel →
    ∃ w' calls, tickLoop fuel w l₂.head? = some (w', calls) ∧ w.Visited w' calls l₁ l₂
  | _, _, 0, _, _, _, hfuel => absurd hfuel (Nat.not_lt_zero _)
  | [], l₁, fuel + 1, w, hl, _, _ =>
    ⟨w, [], rfl, ⟨hl, fun _ _ => rfl, fun _ _ _ => rfl, rfl⟩, by simp, rfl, by simp, by simp⟩
  | tmp :: l₂, l₁, fuel + 1, w, hl, hcall, hfuel => by
    obtain ⟨t, ht, hnode⟩ := Store.cell_of_links hl.links_at
    have hnext : t.next = l₂.head? := congrArg Node.next hnode
    have hdata : w.store.data tmp = some (Store.blank t) := Store.data_of_cell ht
    have hx : tmp ∉ l₁ ++ l₂ := (List.nodup_cons.mp (List.nodup_middle.mp hl.nodup)).1
    have hx₂ : ∀ q ∈ l₂, q ≠ tmp := fun q hq heq => hx (List.mem_append_right _ (heq ▸ hq))
    rw [List.head?_cons, tickLoop]
    simp only [ht, Option.bind_eq_bind, Option.bind_some, hnext]
    split
    next hrot =>
      obtain ⟨s, hs, hlinks, hfresh, hsdata⟩ := wait_spec ht hrot
      have happ : l₁ ++ tmp :: l₂ = (l₁ ++ [tmp]) ++ l₂ := by simp
      have hl' : IsList s.links (w.slots w.curSlot) ((l₁ ++ [tmp]) ++ l₂) := by
        rw [hlinks, ← happ]
        exact hl
      obtain ⟨w', calls, hw', hv⟩ := tickLoop_spec l₂ (l₁ ++ [tmp]) fuel { w with store := s } hl'
        (fun p hp t' ht' => by
          rw [hsdata, if_neg (hx₂ p hp)] at ht'
          exact hcall p (List.mem_cons_of_mem _ hp) t' ht') (Nat.lt_of_succ_lt_succ hfuel)
      rw [hs, Option.bind_some, hw']
      exact ⟨w', calls, rfl, hv.wait hx
        ⟨happ ▸ hl', fun _ _ => rfl, fun q _ _ => congrFun hlinks q, rfl⟩ hsdata hfresh hdata hrot⟩
    next hrot =>
      obtain ⟨w₁, hw₁, hed, hrem⟩ := remove_spec hl
      obtain ⟨w', calls, hw', hv⟩ := tickLoop_spec l₂ l₁ fuel w₁ (hed.curSlot ▸ hed.isList)
        (fun p hp t' ht' => by
          rw [hrem.data, if_neg (by simpa using hx₂ p hp)] at ht'
          exact hcall p (List.mem_cons_of_mem _ hp) t' ht') (Nat.lt_of_succ_lt_succ hfuel)
      obtain ⟨a, ha⟩ := Option.ne_none_iff_exists'.mp (hcall tmp List.mem_cons_self _ hdata)
      obtain ⟨f, hf, hmap⟩ := Option.bind_eq_some_iff.mp ha
      obtain ⟨d, hd, rfl⟩ := Option.map_eq_some_iff.mp hmap
      have hf' : t.cbFunc = some f := hf
      have hd' : t.userData = some d := hd
      rw [hf', hd']
      simp only [hw₁, Option.bind_some, hw']
      exact ⟨w', _, rfl, hv.fire hx hed hrem hdata (Nat.eq_zero_of_not_pos hrot) ha⟩

theorem tick_spec (hl : IsList w.store.links (w.slots w.curSlot) ys)
    (hcall : ∀ p ∈ ys, ∀ t, w.store.data p = some t → t.call ≠ none) :
    ∃ w' calls, w.tick = some ({ w' with curSlot := slotOf (w.curSlot + 1) }, calls) ∧
      w.Visited w' calls [] ys := by
  obtain ⟨w', calls, hw', hv⟩ := tickLoop_spec ys [] (w.store.fresh + 1) w hl hcall
    (Nat.lt_succ_of_le (Store.length_le_fresh hl))
  refine ⟨w', calls, ?_, hv⟩
  rw [tick, hl.head_eq, hw', ← hv.edited.curSlot]
  rfl

end TimeWheel

end LinuxServer
