import LinuxServer.Core.Countdown
import LinuxServer.TimeWheel.Properties

/-!
# Runs of the time wheel

A wheel that holds its timers in the slots they name is a countdown: a timer has as many ticks left
as the hand needs to come to its slot, and a whole turn more for each rotation. Every step of
the wheel is a step of its countdown, so a timer is called by the tick the countdown fires it at.
-/

namespace LinuxServer

open Core Core.Dll

variable {D A : Type*}

/-- The ticks before the one that calls a timer, when the hand is at `cur`. -/
def TwTimer.remaining (t : TwTimer D A) (cur : Fin TimeWheel.N) : ℕ :=
  t.rotation * TimeWheel.N + (t.timeSlot + TimeWheel.N - cur) % TimeWheel.N

namespace TimeWheel

inductive Event (D A : Type*)
  | add (timer : ℕ) (timeout : ℤ) (f : D → A) (d : D)
  | reject (timeout : ℤ)
  | del (timer : Link)
  | tick (calls : List (ℕ × A))

/-- The steps of a wheel and its callers: who is given a timer sets its callback, and a timer that
is gone is not deleted again (`del_timer` would be undefined). -/
inductive Step : TimeWheel D A → Event D A → TimeWheel D A → Prop
  | add {w w₁ w' : TimeWheel D A} {timer : ℕ} (timeout : ℤ) (f : D → A) (d : D) :
      w.addTimer timeout = some (w₁, some timer) → w₁.setCallback (some timer) f d = some w' →
      Step w (.add timer timeout f d) w'
  | reject {w w' : TimeWheel D A} (timeout : ℤ) : w.addTimer timeout = some (w', none) →
      Step w (.reject timeout) w'
  | del {w w' : TimeWheel D A} (timer : Link) : w.delTimer timer = some w' →
      Step w (.del timer) w'
  | tick {w w' : TimeWheel D A} {calls : List (ℕ × A)} : w.tick = some (w', calls) →
      Step w (.tick calls) w'

/-- The calls of each tick of a trace. -/
def ticks (es : List (Event D A)) : List (List (ℕ × A)) :=
  es.filterMap fun
    | .tick calls => some calls
    | _ => none

def timeSlot (w : TimeWheel D A) (p : ℕ) : Option (Fin N) := (w.store.data p).map TwTimer.timeSlot

/-- The timers of each slot are the live ones that name it, and their callbacks are set. -/
structure Holds (w : TimeWheel D A) (xs : Fin N → List ℕ) : Prop where
  isList : ∀ i, IsList w.store.links (w.slots i) (xs i)
  mem : ∀ i p, p ∈ xs i ↔ w.timeSlot p = some i
  armed : ∀ p t, w.store.data p = some t → t.call ≠ none

def left (w : TimeWheel D A) (p : ℕ) : Option (ℕ × A) :=
  (w.store.data p).bind fun t => t.call.map fun a => (t.remaining w.curSlot, a)

variable {w w' w₁ w₂ : TimeWheel D A} {i : Fin N} {p timer : ℕ} {t : TwTimer D A} {a : A}
  {xs : Fin N → List ℕ} {old new : List ℕ} {e : Event D A} {es es₀ : List (Event D A)}

lemma data_of_fresh_le (h : w.store.fresh ≤ p) : w.store.data p = none := by
  simp [Store.data, Store.view, w.store.bound p h]

/-- What the wheel is for. -/
def countdown (w : TimeWheel D A) : Countdown A :=
  ⟨w.left, w.store.fresh, fun p hp => by rw [left, data_of_fresh_le hp, Option.bind_none]⟩

def Event.countdown : Event D A → Countdown.Event A
  | .add timer timeout f d => .start timer (ticksOf timeout) (f d)
  | .reject _ => .skip
  | .del none => .skip
  | .del (some timer) => .stop timer
  | .tick calls => .tick calls

lemma ticks_map_countdown : Countdown.ticks (es.map Event.countdown) = ticks es := by
  rw [Countdown.ticks, ticks, List.filterMap_map]
  congr 1
  funext e
  rcases e with _ | _ | ⟨_ | _⟩ | _ <;> rfl

/-! ### The arithmetic of slots and rotations -/

section Remaining

variable {cur : Fin N}

lemma remaining_newTimer (timeout : ℤ) (f : Option (D → A)) (d : Option D) :
    TwTimer.remaining { w.newTimer timeout with cbFunc := f, userData := d } w.curSlot =
      ticksOf timeout := by
  have hcur := w.curSlot.isLt
  simp only [TwTimer.remaining, newTimer, slotOf, N] at hcur ⊢
  omega

/-- In the slot of the hand only whole turns are left. -/
lemma remaining_at (h : t.timeSlot = cur) : t.remaining cur = t.rotation * N := by
  have hcur := cur.isLt
  simp only [TwTimer.remaining, h, N] at hcur ⊢
  omega

lemma remaining_of_ne (h : t.timeSlot ≠ cur) :
    t.remaining cur = t.remaining (slotOf (cur + 1)) + 1 := by
  have hcur := cur.isLt
  have hslot := t.timeSlot.isLt
  have hne : (t.timeSlot : ℕ) ≠ cur := fun heq => h (Fin.ext heq)
  simp only [TwTimer.remaining, slotOf, N] at hcur hslot ⊢
  omega

lemma remaining_visit (h : t.timeSlot = cur) (hrot : 0 < t.rotation) :
    t.remaining cur =
      TwTimer.remaining { t with rotation := t.rotation - 1 } (slotOf (cur + 1)) + 1 := by
  have hcur := cur.isLt
  rw [remaining_at h]
  simp only [TwTimer.remaining, h, slotOf, N] at hcur ⊢
  omega

end Remaining

lemma left_of_data (h : w.store.data p = some t) (ha : t.call = some a) :
    w.left p = some (t.remaining w.curSlot, a) := by
  rw [left, h, Option.bind_some, ha, Option.map_some]

lemma left_eq_none (h : w.store.data p = none) : w.left p = none := by
  rw [left, h, Option.bind_none]

lemma timeSlot_of_data (h : w.store.data p = some t) : w.timeSlot p = some t.timeSlot := by
  rw [timeSlot, h, Option.map_some]

/-! ### Each step keeps the lists and is a step of the countdown -/

lemma holds_init : (init : TimeWheel D A).Holds fun _ => [] :=
  ⟨fun _ => rfl, fun _ _ => by simp [timeSlot, init, Store.data, Store.view_empty],
    fun _ _ ht => by simp [init, Store.data, Store.view_empty] at ht⟩

lemma Holds.cell (h : w.Holds xs) (ht : w.store.data p = some t) :
    ∃ l₁ l₂, xs t.timeSlot = l₁ ++ p :: l₂ :=
  List.append_of_mem ((h.mem _ p).mpr (timeSlot_of_data ht))

/-- The edit of one slot keeps the lists when the timers it names are those of the new list. -/
lemma Holds.edit (h : w.Holds xs) (hed : w.Edited w' i (xs i) new)
    (hnew : ∀ p, p ∈ new ↔ w'.timeSlot p = some i)
    (hother : ∀ j, j ≠ i → ∀ p, w'.timeSlot p = some j ↔ w.timeSlot p = some j)
    (harmed : ∀ p t, w'.store.data p = some t → t.call ≠ none) :
    w'.Holds (Function.update xs i new) where
  isList j := by
    by_cases hj : j = i
    · subst hj
      rw [Function.update_self]
      exact hed.isList
    · rw [Function.update_of_ne hj]
      apply hed.isList_of_ne hj (h.isList j)
      · intro q hq hold
        have hslot := ((h.mem j q).mp hq).symm.trans ((h.mem i q).mp hold)
        exact hj (Option.some.inj hslot)
      · intro q hq hq'
        have hslot := ((hother j hj q).mpr ((h.mem j q).mp hq)).symm.trans ((hnew q).mp hq')
        exact hj (Option.some.inj hslot)
  mem j p := by
    by_cases hj : j = i
    · subst hj
      rw [Function.update_self]
      exact hnew p
    · rw [Function.update_of_ne hj, hother j hj p]
      exact h.mem j p
  armed := harmed

/-- `add_timer`, and the callback set. -/
lemma Holds.add (h : w.Holds xs) {timeout : ℤ} (hT : 0 ≤ timeout) (f : D → A) (d : D) :
    ∃ w₁ w', w.addTimer timeout = some (w₁, some w.store.fresh) ∧
      w₁.setCallback (some w.store.fresh) f d = some w' ∧ (∃ xs', w'.Holds xs') ∧
      Countdown.Step w.countdown (.start w.store.fresh (ticksOf timeout) (f d)) w'.countdown := by
  obtain ⟨w₁, w', hw₁, hw', hed, hdata, hfresh⟩ :=
    addTimer_setCallback_spec hT f d (h.isList (w.newTimer timeout).timeSlot)
  have hself : w'.store.data w.store.fresh =
      some { w.newTimer timeout with cbFunc := some f, userData := some d } := by
    rw [hdata, Function.update_self]
  have hother : ∀ q, q ≠ w.store.fresh → w'.store.data q = w.store.data q := by
    intro q hq
    rw [hdata, Function.update_of_ne hq]
  have hnone : w.timeSlot w.store.fresh = none := by
    rw [timeSlot, data_of_fresh_le le_rfl, Option.map_none]
  have hslot : ∀ q, q ≠ w.store.fresh → w'.timeSlot q = w.timeSlot q := by
    intro q hq
    rw [timeSlot, timeSlot, hother q hq]
  refine ⟨w₁, w', hw₁, hw', ⟨_, h.edit hed ?_ ?_ ?_⟩, ?_⟩
  · intro q
    by_cases hq : q = w.store.fresh
    · subst hq
      simp [timeSlot_of_data hself]
    · rw [List.mem_cons, hslot q hq, h.mem]
      simp [hq]
  · intro j hj q
    by_cases hq : q = w.store.fresh
    · subst hq
      rw [timeSlot_of_data hself, hnone]
      simpa using Ne.symm hj
    · rw [hslot q hq]
  · intro q t ht
    by_cases hq : q = w.store.fresh
    · subst hq
      obtain rfl := Option.some.inj (hself.symm.trans ht)
      exact Option.some_ne_none (f d)
    · exact h.armed q t (hother q hq ▸ ht)
  · refine .start _ _ hfresh ?_
    funext q
    show w'.left q = Function.update w.left w.store.fresh _ q
    by_cases hq : q = w.store.fresh
    · subst hq
      have hcall : TwTimer.call { w.newTimer timeout with cbFunc := some f, userData := some d } =
          some (f d) := rfl
      rw [left_of_data hself hcall, hed.curSlot, remaining_newTimer, Function.update_self]
    · rw [Function.update_of_ne hq, left, left, hother q hq, hed.curSlot]

/-- `del_timer` of a live timer. -/
lemma Holds.del (h : w.Holds xs) (ht : w.store.cell timer = some t) :
    ∃ w', w.delTimer (some timer) = some w' ∧ (∃ xs', w'.Holds xs') ∧
      Countdown.Step w.countdown (.stop timer) w'.countdown := by
  have hdata : w.store.data timer = some (Store.blank t) := Store.data_of_cell ht
  obtain ⟨l₁, l₂, hxs⟩ := h.cell hdata
  have hl := h.isList t.timeSlot
  rw [show xs t.timeSlot = _ from hxs] at hl
  have hnd : timer ∉ l₁ ++ l₂ := (List.nodup_cons.mp (List.nodup_middle.mp hl.nodup)).1
  obtain ⟨w', hw', hed, hrem⟩ := delTimer_spec hl ht rfl
  have hself : w'.store.data timer = none := by rw [hrem.data, if_pos List.mem_cons_self]
  have hother : ∀ q, q ≠ timer → w'.store.data q = w.store.data q := by
    intro q hq
    rw [hrem.data, if_neg (by simpa using hq)]
  have hslot : ∀ q, q ≠ timer → w'.timeSlot q = w.timeSlot q := by
    intro q hq
    rw [timeSlot, timeSlot, hother q hq]
  have hgone : w'.timeSlot timer = none := by rw [timeSlot, hself, Option.map_none]
  refine ⟨w', hw', ⟨_, h.edit (i := t.timeSlot) (?_ : Edited w w' _ _ (l₁ ++ l₂)) ?_ ?_ ?_⟩, ?_⟩
  · rwa [show xs t.timeSlot = _ from hxs]
  · intro q
    by_cases hq : q = timer
    · subst hq
      simpa [hgone] using hnd
    · have hmem := h.mem t.timeSlot q
      rw [show xs t.timeSlot = _ from hxs] at hmem
      rw [hslot q hq, ← hmem]
      simp [hq]
  · intro j hj q
    by_cases hq : q = timer
    · subst hq
      rw [hgone, timeSlot_of_data hdata]
      exact iff_of_false (Option.some_ne_none j).symm fun heq => hj (Option.some.inj heq).symm
    · rw [hslot q hq]
  · intro q t' ht'
    refine h.armed q t' ((hother q ?_) ▸ ht')
    intro heq
    rw [heq, hself] at ht'
    cases ht'
  · obtain ⟨a, ha⟩ := Option.ne_none_iff_exists'.mp (h.armed timer _ hdata)
    refine .stop timer (left_of_data hdata ha) hrem.fresh ?_
    funext q
    show w'.left q = Function.update w.left timer _ q
    by_cases hq : q = timer
    · subst hq
      rw [Function.update_self, left_eq_none hself]
    · rw [Function.update_of_ne hq, left, left, hother q hq, hed.curSlot]

lemma visit_eq_some {t' : TwTimer D A} (h : t.visit = some t') :
    0 < t.rotation ∧ t' = { t with rotation := t.rotation - 1 } := by
  rw [TwTimer.visit] at h
  split at h
  next hrot => exact ⟨hrot, (Option.some.inj h).symm⟩
  next => cases h

lemma visit_eq_none (h : t.visit = none) : t.rotation = 0 := by
  rw [TwTimer.visit] at h
  split at h
  next => cases h
  next hrot => exact Nat.eq_zero_of_not_pos hrot

/-- A tick takes one off what a timer has left, whether it visits the timer or not. -/
lemma Holds.left_tick (h : w.Holds xs) {calls : List (ℕ × A)}
    (hv : w.Visited w' calls [] (xs w.curSlot)) (q : ℕ) :
    left { w' with curSlot := slotOf (w.curSlot + 1) } q = (w.left q).bind Countdown.dec := by
  cases hq : w.store.data q with
  | none =>
    have hq' : w'.store.data q = none := by rw [hv.data, hq, Option.bind_none, ite_self]
    rw [left_eq_none hq]
    exact left_eq_none hq'
  | some t =>
    obtain ⟨a, ha⟩ := Option.ne_none_iff_exists'.mp (h.armed q t hq)
    have hdata := hv.data q
    rw [left_of_data hq ha, Option.bind_some]
    by_cases hmem : q ∈ xs w.curSlot
    · have hslot : t.timeSlot = w.curSlot :=
        Option.some.inj ((timeSlot_of_data hq).symm.trans ((h.mem _ q).mp hmem))
      rw [if_pos hmem, hq, Option.bind_some] at hdata
      cases hvis : t.visit with
      | none =>
        rw [remaining_at hslot, visit_eq_none hvis, Nat.zero_mul]
        exact left_eq_none (hdata.trans hvis)
      | some t' =>
        obtain ⟨hrot, rfl⟩ := visit_eq_some hvis
        rw [remaining_visit hslot hrot]
        exact left_of_data (hdata.trans hvis) ha
    · have hslot : t.timeSlot ≠ w.curSlot := fun heq =>
        hmem ((h.mem _ q).mpr (heq ▸ timeSlot_of_data hq))
      rw [if_neg hmem, hq] at hdata
      rw [remaining_of_ne hslot]
      exact left_of_data hdata ha

/-- What a tick calls is what has nothing left. -/
lemma Holds.calls_tick (h : w.Holds xs) {calls : List (ℕ × A)}
    (hv : w.Visited w' calls [] (xs w.curSlot)) (q : ℕ) (a : A) :
    (q, a) ∈ calls ↔ w.left q = some (0, a) := by
  rw [hv.calls]
  constructor
  · rintro ⟨hmem, t, ht, hrot, ha⟩
    have hslot : t.timeSlot = w.curSlot :=
      Option.some.inj ((timeSlot_of_data ht).symm.trans ((h.mem _ q).mp hmem))
    rw [left_of_data ht ha, remaining_at hslot, hrot, Nat.zero_mul]
  · intro hleft
    obtain ⟨t, ht, hmap⟩ := Option.bind_eq_some_iff.mp hleft
    obtain ⟨b, hb, heq⟩ := Option.map_eq_some_iff.mp hmap
    obtain ⟨hzero, rfl⟩ : t.remaining w.curSlot = 0 ∧ b = a := by simpa using heq
    by_cases hslot : t.timeSlot = w.curSlot
    · rw [remaining_at hslot, Nat.mul_eq_zero] at hzero
      exact ⟨(h.mem _ q).mpr (hslot ▸ timeSlot_of_data ht), t, ht,
        hzero.resolve_right (by decide), hb⟩
    · rw [remaining_of_ne hslot] at hzero
      exact absurd hzero (Nat.succ_ne_zero _)

/-- `tick` -/
lemma Holds.tick (h : w.Holds xs) :
    ∃ w' calls, w.tick = some (w', calls) ∧ (∃ xs', w'.Holds xs') ∧
      Countdown.Step w.countdown (.tick calls) w'.countdown := by
  obtain ⟨w', calls, hw', hv⟩ := tick_spec (h.isList w.curSlot) fun p _ t ht => h.armed p t ht
  have hdata : ∀ q t', w'.store.data q = some t' →
      ∃ t, w.store.data q = some t ∧ t'.timeSlot = t.timeSlot ∧ t'.call = t.call := by
    intro q t' ht'
    rw [hv.data] at ht'
    split at ht'
    next =>
      obtain ⟨t, ht, hvis⟩ := Option.bind_eq_some_iff.mp ht'
      obtain ⟨-, rfl⟩ := visit_eq_some hvis
      exact ⟨t, ht, rfl, rfl⟩
    next => exact ⟨t', ht', rfl, rfl⟩
  have hslot : ∀ q j, w'.timeSlot q = some j → w.timeSlot q = some j := by
    intro q j hq
    obtain ⟨t', ht', rfl⟩ := Option.map_eq_some_iff.mp hq
    obtain ⟨t, ht, hts, -⟩ := hdata q t' ht'
    rw [timeSlot_of_data ht, hts]
  have hholds := h.edit hv.edited (fun q => ?_) (fun j hj q => ⟨hslot q j, fun hq => ?_⟩)
    fun q t' ht' => ?_
  · refine ⟨_, calls, hw', ⟨_, hholds.isList, hholds.mem, hholds.armed⟩, ?_⟩
    have hnd := hv.timers.nodup (h.isList w.curSlot).nodup
    exact .tick hnd (h.calls_tick hv) hv.fresh (h.left_tick hv)
  · rw [List.nil_append, List.mem_filter, Option.isSome_iff_exists]
    constructor
    · rintro ⟨hmem, t', ht'⟩
      obtain ⟨t, ht, hts, -⟩ := hdata q t' ht'
      rw [timeSlot_of_data ht', hts, ← timeSlot_of_data ht]
      exact (h.mem _ q).mp hmem
    · intro hq
      obtain ⟨t', ht', -⟩ := Option.map_eq_some_iff.mp hq
      exact ⟨(h.mem _ q).mpr (hslot q _ hq), t', ht'⟩
  · have hmem : q ∉ xs w.curSlot := fun hmem =>
      hj (Option.some.inj (hq.symm.trans ((h.mem _ q).mp hmem)))
    rw [timeSlot, hv.data, if_neg hmem]
    exact hq
  · obtain ⟨t, ht, -, hcall⟩ := hdata q t' ht'
    exact hcall ▸ h.armed q t ht

/-- Every step is defined on the lists and is the step of the countdown that it means. -/
theorem Step.countdown (hs : Step w e w') (h : w.Holds xs) :
    (∃ xs', w'.Holds xs') ∧ Countdown.Step w.countdown e.countdown w'.countdown := by
  cases hs with
  | add timeout f d hadd hset =>
    have hT : 0 ≤ timeout := by
      by_contra hneg
      rw [addTimer, if_pos (not_le.mp hneg)] at hadd
      cases hadd
    obtain ⟨v₁, v', hv₁, hv', hholds, hstep⟩ := h.add hT f d
    cases hv₁.symm.trans hadd
    cases hv'.symm.trans hset
    exact ⟨hholds, hstep⟩
  | reject timeout hadd =>
    have hT : timeout < 0 := by
      by_contra hneg
      obtain ⟨v₁, hv₁, -⟩ := addTimer_spec (not_lt.mp hneg) (h.isList _)
      cases hv₁.symm.trans hadd
    rw [addTimer, if_pos hT] at hadd
    cases hadd
    exact ⟨⟨xs, h⟩, .skip rfl rfl⟩
  | del timer hdel =>
    cases timer with
    | none =>
      cases hdel
      exact ⟨⟨xs, h⟩, .skip rfl rfl⟩
    | some timer =>
      obtain ⟨t, ht, -⟩ := Option.bind_eq_some_iff.mp hdel
      obtain ⟨v', hv', hholds, hstep⟩ := h.del ht
      cases hv'.symm.trans hdel
      exact ⟨hholds, hstep⟩
  | tick htick =>
    obtain ⟨v', calls, hv', hholds, hstep⟩ := h.tick
    cases hv'.symm.trans htick
    exact ⟨hholds, hstep⟩

/-- No operation that a caller may do next follows a null or dangling pointer. -/
structure Defined (w : TimeWheel D A) : Prop where
  add : ∀ timeout f d, 0 ≤ timeout → ∃ w', Step w (.add w.store.fresh timeout f d) w'
  reject : ∀ timeout, timeout < 0 → Step w (.reject timeout) w
  del : ∀ timer t, w.store.cell timer = some t → ∃ w', Step w (.del (some timer)) w'
  tick : ∃ calls w', Step w (.tick calls) w'

lemma Holds.defined (h : w.Holds xs) : w.Defined where
  add timeout f d hT := by
    obtain ⟨w₁, w', hw₁, hw', -⟩ := h.add hT f d
    exact ⟨w', .add timeout f d hw₁ hw'⟩
  reject timeout hT := .reject timeout (if_pos hT)
  del timer t ht := by
    obtain ⟨w', hw', -⟩ := h.del ht
    exact ⟨w', .del _ hw'⟩
  tick := by
    obtain ⟨w', calls, hw', -⟩ := h.tick
    exact ⟨calls, w', .tick hw'⟩

theorem run_holds (hrun : Trace Step init es w) : ∃ xs, w.Holds xs :=
  hrun.invariant (I := fun w : TimeWheel D A => ∃ xs, w.Holds xs)
    (fun _ _ _ ⟨_, h⟩ hs => (hs.countdown h).1) ⟨_, holds_init⟩

/-- A trace of the wheel is a trace of its countdown. -/
theorem trace_countdown (h : w.Holds xs) (htrace : Trace Step w es w') :
    Trace Countdown.Step w.countdown (es.map Event.countdown) w'.countdown := by
  have hstep : ∀ (w : TimeWheel D A) c e w', (c = w.countdown ∧ ∃ xs, w.Holds xs) → Step w e w' →
      ∃ c', Countdown.Step c (Event.countdown e) c' ∧ c' = w'.countdown ∧ ∃ xs, w'.Holds xs := by
    rintro w c e w' ⟨rfl, xs, h⟩ hs
    obtain ⟨hholds, hstep⟩ := hs.countdown h
    exact ⟨_, hstep, rfl, hholds⟩
  obtain ⟨c, hc, rfl, -⟩ := htrace.simulate hstep ⟨rfl, xs, h⟩
  exact hc

lemma ticksOf_eq {timeout : ℤ} (hT : 0 ≤ timeout) : (ticksOf timeout : ℤ) = max timeout SI / SI := by
  simp only [ticksOf, SI, Nat.cast_one, Int.ediv_one]
  split_ifs <;> omega

/-- In every run a timer added with a `timeout` is called by the tick of the number
`max timeout SI / SI + 1` after its addition, once, and by no other one; if it is deleted, it
is never called. The operations of the run are all defined. -/
theorem run_fires {timeout : ℤ} {f : D → A} {d : D} (hrun : Trace Step init es₀ w)
    (hadd : Step w (.add timer timeout f d) w₁) (hlater : Trace Step w₁ es w₂) :
    (.del (some timer) ∉ es → ∀ (i : ℕ) (calls : List (ℕ × A)), (ticks es)[i]? = some calls →
      (calls.filter fun c => c.1 = timer) =
        if (i : ℤ) + 1 = max timeout SI / SI + 1 then [(timer, f d)] else []) ∧
    (.del (some timer) ∈ es → ∀ calls ∈ ticks es, (calls.filter fun c => c.1 = timer) = []) ∧
    w₂.Defined := by
  obtain ⟨xs, h⟩ := run_holds hrun
  obtain ⟨⟨xs₁, h₁⟩, hstart⟩ := hadd.countdown h
  obtain ⟨xs₂, h₂⟩ := run_holds ((hrun.snoc hadd).append hlater)
  have hT : 0 ≤ timeout := by
    by_contra hneg
    cases hadd with
    | add _ _ _ hadd =>
      rw [addTimer, if_pos (not_le.mp hneg)] at hadd
      cases hadd
  have hleft : w₁.countdown.left timer = some (ticksOf timeout, f d) := by
    cases hstart with
    | start _ _ _ hleft => rw [hleft, Function.update_self]
  obtain ⟨hfires, hnever⟩ := Countdown.fires (trace_countdown h₁ hlater) hleft
  have hdel : Countdown.Event.stop timer ∈ es.map Event.countdown ↔
      Event.del (some timer) ∈ es := by
    rw [List.mem_map]
    constructor
    · rintro ⟨_ | _ | ⟨_ | q⟩ | _, he, heq⟩
      all_goals cases heq
      exact he
    · exact fun he => ⟨_, he, rfl⟩
  rw [hdel, ticks_map_countdown] at hfires hnever
  refine ⟨?_, hnever, h₂.defined⟩
  intro hnot i calls hi
  have hi' : i = ticksOf timeout ↔ (i : ℤ) + 1 = max timeout SI / SI + 1 := by
    rw [← ticksOf_eq hT]
    omega
  simp only [← hi']
  exact hfires hnot i calls hi

/-- Of two timers in one slot, one is deleted after a tick; the next tick calls the other one. -/
theorem run_fires_two :
    ∃ w₁ w₂ : TimeWheel ℕ ℕ, ∃ es, Trace Step w₁ es w₂ ∧ ticks es = [[], [(0, 7)]] ∧ w₂.Defined :=
  have hadd := Step.add (w := (init : TimeWheel ℕ ℕ)) 1 id 7 (rfl : _ = some (_, some 0)) rfl
  have hlater := Trace.cons (.add 1 id 8 (rfl : _ = some (_, some 1)) rfl) (.cons (.tick rfl)
    (.cons (.del (some 1) rfl) (.cons (.tick rfl) (.nil _))))
  ⟨_, _, _, hlater, rfl, (run_fires (.nil _) hadd hlater).2.2⟩

end TimeWheel

end LinuxServer
