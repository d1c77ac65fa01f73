import LinuxServer.Core.Freeing
import LinuxServer.SortTimerLst.Runs

/-!
# The life of the timers of the list

A timer lives from `new` until `del_timer`, or until the `tick` that fires it; those that are left are
deleted by the destructor, each once.
-/

namespace LinuxServer.SortTimerLst

open Core Core.Dll

variable {D A : Type*} {l l' l₁ : SortTimerLst D A} {h : History A} {p : ℕ} {ts : List ℕ}

/-- The loop of the destructor, from `tmp` on. -/
def destroyLoop : ℕ → SortTimerLst D A → Link → Option (SortTimerLst D A)
  | 0, _, _ => none
  | _ + 1, l, none => some l
  | fuel + 1, l, some tmp => do
    let t ← l.store.cell tmp
    let l := { l with head := t.next }
    let s ← l.store.free tmp
    destroyLoop fuel { l with store := s } l.head

/-- `~sort_timer_lst()` -/
def destroy (l : SortTimerLst D A) : Option (SortTimerLst D A) := destroyLoop l.fuel l l.head

/-- The destructor is the loop that frees a list. -/
lemma destroyLoop_eq (fuel : ℕ) (l : SortTimerLst D A) :
    destroyLoop fuel l l.head =
      (Store.freeLoop fuel l.store l.head).map fun s => { l with store := s, head := none } := by
  induction fuel generalizing l with
  | zero => rfl
  | succ fuel ih =>
    obtain ⟨store, head, tail⟩ := l
    cases head with
    | none => rfl
    | some tmp =>
      rw [destroyLoop, Store.freeLoop]
      cases ht : store.cell tmp with
      | none => rfl
      | some t =>
        cases hs : store.free tmp with
        | none => simp [hs]
        | some s =>
          simp only [Option.bind_eq_bind, Option.bind_some, hs]
          exact ih ⟨s, t.next, tail⟩

lemma Holds.destroy (hl : l.Holds ts) :
    ∃ l', l.destroy = some l' ∧ l.store.Freed l'.store ts ∧ l'.head = none := by
  obtain ⟨s, hs, hfreed⟩ := Store.freeLoop_spec hl.isList
  refine ⟨{ l with store := s, head := none }, ?_, hfreed, rfl⟩
  rw [SortTimerLst.destroy, destroyLoop_eq, fuel, hs]
  rfl

/-! ### Only links are written -/

section

variable {s s' : Store (UtilTimer D A)} {v hd : Link}

lemma relinked_trans {s'' : Store (UtilTimer D A)} (h : s.Relinked s' s'.links)
    (h' : s'.Relinked s'' s''.links) : s.Relinked s'' s''.links :=
  ⟨h'.links, h'.data.trans h.data, h'.fresh.trans h.fresh⟩

lemma relinked_setNext (h : s.setNext hd v = some s') : s.Relinked s' s'.links := by
  obtain ⟨x, -, hs⟩ := Option.bind_eq_some_iff.mp h
  split at hs
  next =>
    cases hs
    exact ⟨rfl, s.view_modify_of_same x fun a => rfl, rfl⟩
  next => cases hs

lemma relinked_setPrev (h : s.setPrev hd v = some s') : s.Relinked s' s'.links := by
  obtain ⟨x, -, hs⟩ := Option.bind_eq_some_iff.mp h
  split at hs
  next =>
    cases hs
    exact ⟨rfl, s.view_modify_of_same x fun a => rfl, rfl⟩
  next => cases hs

end

lemma relinked_addTimerLoop {timer fuel : ℕ} {prev tmp : Link}
    (h : l.addTimerLoop timer fuel prev tmp = some l') : l.store.Relinked l'.store l'.store.links := by
  induction fuel generalizing prev tmp with
  | zero => cases h
  | succ fuel ih =>
    cases tmp with
    | none =>
      simp only [addTimerLoop, Option.bind_eq_bind, Option.bind_eq_some_iff] at h
      obtain ⟨s₁, h₁, s₂, h₂, s₃, h₃, heq⟩ := h
      cases heq
      exact relinked_trans (relinked_setNext h₁) (relinked_trans (relinked_setPrev h₂) (relinked_setNext h₃))
    | some tmp =>
      simp only [addTimerLoop, Option.bind_eq_bind, Option.bind_eq_some_iff] at h
      obtain ⟨t, -, n, -, h⟩ := h
      split at h
      next =>
        simp only [Option.bind_eq_some_iff] at h
        obtain ⟨s₁, h₁, s₂, h₂, s₃, h₃, s₄, h₄, heq⟩ := h
        cases heq
        have hlast := relinked_trans (relinked_setPrev h₃) (relinked_setPrev h₄)
        exact relinked_trans (relinked_setNext h₁) (relinked_trans (relinked_setNext h₂) hlast)
      next => exact ih h

lemma relinked_addTimerFrom {timer : ℕ} {lstHead : Link} (h : l.addTimerFrom timer lstHead = some l') :
    l.store.Relinked l'.store l'.store.links := by
  obtain ⟨_, -, h⟩ := Option.bind_eq_some_iff.mp h
  exact relinked_addTimerLoop h

lemma relinked_addTimer {timer : Link} (h : l.addTimer timer = some l') :
    l.store.Relinked l'.store l'.store.links := by
  cases timer with
  | none =>
    cases h
    exact .refl _
  | some timer =>
    rw [addTimer] at h
    split at h
    next =>
      cases h
      exact .refl _
    next =>
      simp only [Option.bind_eq_bind, Option.bind_eq_some_iff] at h
      obtain ⟨t, -, n, -, h⟩ := h
      split at h
      next =>
        simp only [Option.bind_eq_some_iff] at h
        obtain ⟨s₁, h₁, s₂, h₂, heq⟩ := h
        cases heq
        exact relinked_trans (relinked_setNext h₁) (relinked_setPrev h₂)
      next => exact relinked_addTimerFrom h

lemma relinked_adjustTimer {timer : Link} (h : l.adjustTimer timer = some l') :
    l.store.Relinked l'.store l'.store.links := by
  cases timer with
  | none =>
    cases h
    exact .refl _
  | some timer =>
    simp only [adjustTimer, Option.bind_eq_bind, Option.bind_eq_some_iff] at h
    obtain ⟨t, -, h⟩ := h
    split at h
    next =>
      cases h
      exact .refl _
    next =>
      simp only [Option.bind_eq_some_iff] at h
      obtain ⟨n, -, h⟩ := h
      split at h
      next =>
        cases h
        exact .refl _
      next =>
        split at h
        all_goals
          simp only [Option.bind_eq_some_iff] at h
          obtain ⟨s₁, h₁, s₂, h₂, h⟩ := h
          refine relinked_trans ?_ (relinked_addTimerFrom h)
        · exact relinked_trans (relinked_setPrev h₁) (relinked_setNext h₂)
        · exact relinked_trans (relinked_setNext h₁) (relinked_setPrev h₂)

lemma data_setExpire {e : ℤ} {q : ℕ} (h : l.setExpire (some p) e = some l₁) (hq : q ≠ p) :
    l₁.store.data q = l.store.data q := by
  obtain ⟨s, hs, rfl⟩ := Option.map_eq_some_iff.mp h
  rw [Store.assign, Option.bind_some] at hs
  split at hs
  next =>
    cases hs
    simp [Store.data, Store.view, hq]
  next => cases hs

/-! ### Nothing is forgotten -/

/-- A timer that lives is in the list. -/
def Kept (l : SortTimerLst D A) (h : History A) : Prop := ∀ q, l.store.data q ≠ none → h.queue.Waits q

lemma kept_init : (.init : SortTimerLst D A).Kept .init := fun q hq =>
  absurd (congrFun Store.view_empty q) hq

lemma Kept.add {e : ℤ} {cbFunc : D → A} {userData : D} (hk : l.Kept h)
    (hnew : l.newTimer e cbFunc userData = (l₁, p)) (hadd : l₁.addTimer (some p) = some l') :
    l'.Kept (h.set p e) := by
  intro q hq
  rw [(relinked_addTimer hadd).data] at hq
  cases hnew
  refine DeadlineQueue.waits_put.mpr ?_
  by_cases hp : q = l.store.fresh
  · exact .inl hp
  · have hsame : (l.newTimer e cbFunc userData).1.store.data q = l.store.data q := by
      simp [newTimer, Store.data, Store.view, hp]
    exact .inr (hk q fun hnone => hq (hsame.trans hnone))

lemma Kept.del (hk : l.Kept h) (r : l.Refines h ts) (hp : h.queue.Waits p)
    (hdel : l.delTimer (some p) = some l') : l'.Kept (h.del p) := by
  obtain ⟨a, b, rfl⟩ := List.append_of_mem ((r.lists.mem p).mpr hp)
  obtain ⟨l'', hl'', -, hrem⟩ := delTimer_spec r.holds
  cases hl''.symm.trans hdel
  intro q hq
  rw [hrem.data] at hq
  split at hq
  next => exact absurd rfl hq
  next hgone => exact DeadlineQueue.waits_remove.mpr ⟨hgone, hk q hq⟩

lemma Kept.tick {cur : ℤ} {calls : List (ℕ × A)} (hk : l.Kept h) (r : l.Refines h ts)
    (htick : l.tick cur = some (l', calls)) : l'.Kept (h.tick cur calls) := by
  obtain ⟨l'', calls', r₁, r₂, hl'', -, hticked⟩ := tick_spec cur r.holds
  cases hl''.symm.trans htick
  intro q hq
  rw [hticked.removed.data, ← hticked.timers] at hq
  split at hq
  next => exact absurd rfl hq
  next hgone => exact DeadlineQueue.waits_remove.mpr ⟨hgone, hk q hq⟩

/-- In every run the timers that live are those that wait. -/
lemma Run.kept (hrun : Run l h) : l.Kept h := by
  induction hrun with
  | init => exact kept_init
  | add _ _ _ _ hnew hadd ih => exact ih.add hnew hadd
  | @adjust l l₁ l' h p e₀ e _ hp _ hset hadj ih =>
    intro q hq
    rw [(relinked_adjustTimer hadj).data] at hq
    refine DeadlineQueue.waits_put.mpr ?_
    by_cases hqp : q = p
    · exact .inl hqp
    · exact .inr (ih q fun hnone => hq ((data_setExpire hset hqp).trans hnone))
  | @del _ _ _ _ hrun hp hdel ih =>
    obtain ⟨ts, r⟩ := hrun.refines
    exact ih.del r hp hdel
  | @tick _ _ _ _ _ hrun htick ih =>
    obtain ⟨ts, r⟩ := hrun.refines
    exact ih.tick r htick

/-- In every run the timers that live are exactly those that were added and neither deleted nor fired
since, and the destructor deletes each of them once and leaves none. -/
theorem run_destroys (hrun : Run l h) :
    (∀ q, l.store.cell q ≠ none ↔ h.queue.Waits q) ∧
      ∃ l', l.destroy = some l' ∧ (∀ q, l'.store.cell q = none) ∧ l'.head = none := by
  obtain ⟨ts, r⟩ := hrun.refines
  have hlive : ∀ q, l.store.cell q ≠ none ↔ h.queue.Waits q := by
    intro q
    refine ⟨fun hq => hrun.kept q (by simpa [Store.data, Store.view] using hq), fun hq => ?_⟩
    obtain ⟨e, he⟩ := hq.until
    obtain ⟨t, ht, -⟩ := cell_of_expire (r.expire q e he)
    simp [ht]
  obtain ⟨l', hl', hfreed, hhead⟩ := r.holds.destroy
  refine ⟨hlive, l', hl', fun q => ?_, hhead⟩
  rw [hfreed.cell]
  split
  next => rfl
  next hq =>
    by_contra hcell
    exact hq ((r.lists.mem q).mpr ((hlive q).mp hcell))

/-- Three timers, of which one was fired. -/
theorem run_destroys_three :
    ∃ (l l' : SortTimerLst ℕ ℕ) (h : History ℕ), Run l h ∧ h.fired.length = 1 ∧
      l.destroy = some l' ∧ ∀ q, l'.store.cell q = none := by
  have hrun := Run.tick 5 (Run.add 9 id 30 (Run.add 6 id 20 (Run.add 5 id 10 Run.init rfl rfl)
    rfl rfl) rfl rfl) rfl
  obtain ⟨l', hl', hnone, -⟩ := (run_destroys hrun).2
  exact ⟨_, l', _, hrun, rfl, hl', hnone⟩

end LinuxServer.SortTimerLst
