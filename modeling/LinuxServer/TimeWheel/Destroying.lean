import LinuxServer.Core.Freeing
import LinuxServer.TimeWheel.Runs

/-!
# The life of the timers of the wheel

A timer lives from `add_timer` until `del_timer`, or until the tick that calls it; those that are left are
deleted by the destructor, slot for slot, each once.
-/

namespace LinuxServer.TimeWheel

open Core Core.Dll

variable {D A : Type*} {w w' : TimeWheel D A} {i : Fin N} {xs : Fin N → List ℕ} {es : List (Event D A)}

/-- The loop of the destructor over the slot `i`, from `tmp` on. -/
def destroySlot (i : Fin N) : ℕ → TimeWheel D A → Link → Option (TimeWheel D A)
  | 0, _, _ => none
  | _ + 1, w, none => some w
  | fuel + 1, w, some tmp => do
    let t ← w.store.cell tmp
    let w := { w with slots := Function.update w.slots i t.next }
    let s ← w.store.free tmp
    destroySlot i fuel { w with store := s } (w.slots i)

/-- `~time_wheel()` -/
def destroy (w : TimeWheel D A) : Option (TimeWheel D A) :=
  (List.finRange N).foldlM (fun w i => destroySlot i (w.store.fresh + 1) w (w.slots i)) w

/-- A slot is freed as a list. -/
lemma destroySlot_eq (i : Fin N) (fuel : ℕ) (w : TimeWheel D A) :
    destroySlot i fuel w (w.slots i) = (Store.freeLoop fuel w.store (w.slots i)).map fun s =>
      { w with store := s, slots := Function.update w.slots i none } := by
  induction fuel generalizing w with
  | zero => rfl
  | succ fuel ih =>
    cases hslot : w.slots i with
    | none =>
      have hsame : Function.update w.slots i none = w.slots := by
        rw [← hslot, Function.update_eq_self]
      rw [destroySlot, Store.freeLoop, Option.map_some, hsame]
    | some tmp =>
      rw [destroySlot, Store.freeLoop]
      cases ht : w.store.cell tmp with
      | none => rfl
      | some t =>
        simp only [Option.bind_eq_bind, Option.bind_some]
        cases hs : w.store.free tmp with
        | none => rfl
        | some s =>
          have hrest := ih { w with store := s, slots := Function.update w.slots i t.next }
          simp only [Function.update_self, Function.update_idem] at hrest
          simp only [Option.bind_some, Function.update_self]
          exact hrest

lemma destroySlot_spec (h : IsList w.store.links (w.slots i) (xs i)) :
    ∃ w', destroySlot i (w.store.fresh + 1) w (w.slots i) = some w' ∧ w.store.Freed w'.store (xs i) ∧
      w'.slots = Function.update w.slots i none := by
  obtain ⟨s, hs, hfreed⟩ := Store.freeLoop_spec h
  refine ⟨{ w with store := s, slots := Function.update w.slots i none }, ?_, hfreed, rfl⟩
  rw [destroySlot_eq, hs, Option.map_some]

/-- Slot for slot, the lists of the other slots stay what they are. -/
lemma destroy_slots {slots : List (Fin N)} (hnd : slots.Nodup)
    (h : ∀ i ∈ slots, IsList w.store.links (w.slots i) (xs i))
    (hdisj : ∀ i j q, q ∈ xs i → q ∈ xs j → i = j) :
    ∃ w', slots.foldlM (fun w i => destroySlot i (w.store.fresh + 1) w (w.slots i)) w = some w' ∧
      w.store.Freed w'.store (slots.flatMap xs) ∧
        ∀ i, w'.slots i = if i ∈ slots then none else w.slots i := by
  induction slots generalizing w with
  | nil => exact ⟨w, rfl, .refl _, fun i => rfl⟩
  | cons i slots ih =>
    obtain ⟨hi, hnd⟩ := List.nodup_cons.mp hnd
    obtain ⟨w₁, hw₁, hfreed, hslots⟩ := destroySlot_spec (h i List.mem_cons_self)
    have hrest : ∀ j ∈ slots, IsList w₁.store.links (w₁.slots j) (xs j) := by
      intro j hj
      have hji : j ≠ i := fun heq => hi (heq ▸ hj)
      rw [hslots, Function.update_of_ne hji]
      exact (h j (List.mem_cons_of_mem i hj)).congr fun q hq =>
        hfreed.links fun hmem => hji (hdisj j i q hq hmem)
    obtain ⟨w', hw', hfreed', hnone⟩ := ih hnd hrest
    refine ⟨w', ?_, hfreed.trans hfreed', ?_⟩
    · rw [List.foldlM_cons, hw₁]
      exact hw'
    · intro j
      simp only [hnone, hslots, List.mem_cons]
      by_cases hji : j = i
      · simp [hji]
      · simp [hji]

lemma Holds.destroy (h : w.Holds xs) :
    ∃ w', w.destroy = some w' ∧ (∀ q, w'.store.cell q = none) ∧ ∀ i, w'.slots i = none := by
  have hdisj : ∀ i j q, q ∈ xs i → q ∈ xs j → i = j := fun i j q hi hj =>
    Option.some_inj.mp (((h.mem i q).mp hi).symm.trans ((h.mem j q).mp hj))
  obtain ⟨w', hw', hfreed, hslots⟩ :=
    destroy_slots (List.nodup_finRange N) (fun i _ => h.isList i) hdisj
  refine ⟨w', hw', fun q => ?_, fun i => by rw [hslots, if_pos (List.mem_finRange i)]⟩
  rw [hfreed.cell]
  split
  next => rfl
  next hq =>
    cases hcell : w.store.cell q with
    | none => rfl
    | some t =>
      have hslot : w.timeSlot q = some (Store.blank t).timeSlot := timeSlot_of_data (Store.data_of_cell hcell)
      exact absurd (List.mem_flatMap.mpr ⟨_, List.mem_finRange _, (h.mem _ q).mpr hslot⟩) hq

/-- What lives has ticks left. -/
lemma Holds.cell_iff (h : w.Holds xs) (q : ℕ) : w.store.cell q ≠ none ↔ w.countdown.left q ≠ none := by
  show _ ↔ w.left q ≠ none
  cases hcell : w.store.cell q with
  | none =>
    have hdata : w.store.data q = none := by rw [Store.data, Store.view, hcell, Option.map_none]
    simp [left_eq_none hdata]
  | some t =>
    have hdata := Store.data_of_cell hcell
    obtain ⟨a, ha⟩ := Option.ne_none_iff_exists'.mp (h.armed q _ hdata)
    simp [left_of_data hdata ha]

lemma running_countdown_iff {q : ℕ} : Countdown.Running (es.map Event.countdown) q ↔
    (∃ timeout f d, .add q timeout f d ∈ es) ∧ .del (some q) ∉ es ∧
      ∀ calls ∈ ticks es, q ∉ calls.map Prod.fst := by
  have hstart : (∃ k a, Countdown.Event.start q k a ∈ es.map Event.countdown) ↔
      ∃ timeout f d, .add q timeout f d ∈ es := by
    constructor
    · rintro ⟨k, a, hmem⟩
      obtain ⟨e, he, heq⟩ := List.mem_map.mp hmem
      rcases e with ⟨timer, timeout, f, d⟩ | _ | ⟨_ | _⟩ | _ <;> cases heq
      exact ⟨timeout, f, d, he⟩
    · rintro ⟨timeout, f, d, hmem⟩
      exact ⟨_, _, List.mem_map.mpr ⟨_, hmem, rfl⟩⟩
  have hstop : Countdown.Event.stop q ∈ es.map Event.countdown ↔ Event.del (some q) ∈ es := by
    constructor
    · intro hmem
      obtain ⟨e, he, heq⟩ := List.mem_map.mp hmem
      rcases e with _ | _ | ⟨_ | _⟩ | _ <;> cases heq
      exact he
    · exact fun hmem => List.mem_map.mpr ⟨_, hmem, rfl⟩
  constructor
  · rintro ⟨hs, hd, hf⟩
    rw [ticks_map_countdown] at hf
    exact ⟨hstart.mp hs, fun hmem => hd (hstop.mpr hmem), hf⟩
  · rintro ⟨hs, hd, hf⟩
    exact ⟨hstart.mpr hs, fun hmem => hd (hstop.mp hmem), by rwa [ticks_map_countdown]⟩

/-- In every run the timers that live are exactly those that were added, and neither deleted nor called;
the destructor deletes each of them once and leaves none. -/
theorem run_frees (hrun : Trace Step (init : TimeWheel D A) es w) :
    (∀ q, w.store.cell q ≠ none ↔ (∃ timeout f d, .add q timeout f d ∈ es) ∧ .del (some q) ∉ es ∧
      ∀ calls ∈ ticks es, q ∉ calls.map Prod.fst) ∧
    ∃ w', w.destroy = some w' ∧ (∀ q, w'.store.cell q = none) ∧ ∀ i, w'.slots i = none := by
  obtain ⟨xs, h⟩ := run_holds hrun
  refine ⟨fun q => ?_, h.destroy⟩
  have hempty : ∀ p, (init : TimeWheel D A).countdown.left p = none := fun p => rfl
  rw [h.cell_iff, Countdown.left_iff_running hempty (trace_countdown holds_init hrun),
    running_countdown_iff]

/-- Two timers of one slot, of which one is deleted. -/
theorem run_frees_two :
    ∃ (es : List (Event ℕ ℕ)) (w w' : TimeWheel ℕ ℕ), Trace Step init es w ∧ w.store.cell 0 ≠ none ∧
      w.destroy = some w' ∧ ∀ q, w'.store.cell q = none := by
  have hrun : Trace Step (init : TimeWheel ℕ ℕ) [.add 0 1 id 7, .add 1 1 id 8, .del (some 1)] _ :=
    .cons (.add 1 id 7 rfl rfl) (.cons (.add 1 id 8 rfl rfl) (.cons (.del (some 1) rfl) (.nil _)))
  obtain ⟨w', hw', hnone, -⟩ := (run_frees hrun).2
  refine ⟨_, _, w', hrun, ?_, hw', hnone⟩
  exact ((run_frees hrun).1 0).mpr ⟨⟨1, id, 7, by simp⟩, by simp, by simp [ticks]⟩

end LinuxServer.TimeWheel
