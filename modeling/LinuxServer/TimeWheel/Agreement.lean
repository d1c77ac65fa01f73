import LinuxServer.Core.Synchrony
import LinuxServer.SortTimerLst.Destroying
import LinuxServer.TimeWheel.Runs

/-!
# The time wheel and the sorted list

The two keep the same timers when their callers add and delete alike and count the time in ticks: a
timer that the wheel gets with a `timeout` is the one that the list gets with the time of the tick
that is to call it. Then every tick calls the same timers on both sides, in opposite orders: the wheel
has the newest timer of a slot in front, the list the oldest one of a deadline.
-/

namespace LinuxServer.TimeWheel

open Core Core.Dll

variable {D A : Type*}

/-- A wheel and a list, at the time of `clock`. -/
structure Both (D A : Type*) where
  wheel : TimeWheel D A
  list : SortTimerLst D A
  clock : ℤ

namespace Both

def init : Both D A := ⟨.init, .init, 0⟩

/-- The time of the tick that calls a timer added now. -/
def expireOf (s : Both D A) (timeout : ℤ) : ℤ := s.clock + max timeout SI / SI + 1

/-- What the wheel does and what the list does; a tick has the calls of both. -/
inductive Event (D A : Type*)
  | add (timer : ℕ) (timeout : ℤ) (f : D → A) (d : D)
  | del (timer : ℕ)
  | tick (cw cl : List (ℕ × A))

inductive Step : Both D A → Event D A → Both D A → Prop
  | add {s : Both D A} {w₁ w : TimeWheel D A} {l₁ l : SortTimerLst D A} {timer : ℕ} (timeout : ℤ)
      (f : D → A) (d : D) : s.wheel.addTimer timeout = some (w₁, some timer) →
      w₁.setCallback (some timer) f d = some w →
      s.list.newTimer (s.expireOf timeout) f d = (l₁, timer) → l₁.addTimer (some timer) = some l →
      Step s (.add timer timeout f d) ⟨w, l, s.clock⟩
  | del {s : Both D A} {w : TimeWheel D A} {l : SortTimerLst D A} (timer : ℕ) :
      s.wheel.delTimer (some timer) = some w → s.list.delTimer (some timer) = some l →
      Step s (.del timer) ⟨w, l, s.clock⟩
  | tick {s : Both D A} {w : TimeWheel D A} {l : SortTimerLst D A} {cw cl : List (ℕ × A)} :
      s.wheel.tick = some (w, cw) → s.list.tick (s.clock + 1) = some (l, cl) →
      Step s (.tick cw cl) ⟨w, l, s.clock + 1⟩

end Both

variable {w w' : TimeWheel D A} {i : Fin N} {xs xs' : Fin N → List ℕ} {new : List ℕ} {p timer : ℕ}
  {l l' : SortTimerLst D A} {calls cw cl : List (ℕ × A)} {cur : ℤ} {r₁ r₂ ts : List ℕ}
  {s s' : Both D A} {h : SortTimerLst.History A} {e : Both.Event D A} {es : List (Both.Event D A)}

/-! ### The order of the wheel -/

/-- The timers of a slot come from the newest to the oldest. -/
def Descending (xs : Fin N → List ℕ) : Prop := ∀ i, (xs i).Pairwise (· > ·)

/-- The edit of one slot leaves the others in their order. -/
lemma Holds.descending (h : w.Holds xs) (hxs : Descending xs) (hed : w.Edited w' i (xs i) new)
    (hnew : new.Pairwise (· > ·)) (hmem : ∀ q ∈ new, q ∈ xs i ∨ w.timeSlot q = none)
    (h' : ∀ j, IsList w'.store.links (w'.slots j) (xs' j)) : Descending xs' := by
  intro j
  by_cases hj : j = i
  · subst hj
    rwa [Seg.unique (h' j) hed.isList]
  · have hold : ∀ q ∈ xs j, q ∉ xs i := by
      intro q hq hqi
      exact hj (Option.some_inj.mp (((h.mem j q).mp hq).symm.trans ((h.mem i q).mp hqi)))
    have hkeep : IsList w'.store.links (w'.slots j) (xs j) := by
      refine hed.isList_of_ne hj (h.isList j) hold fun q hq hqn => ?_
      rcases hmem q hqn with hqi | hnone
      · exact hold q hq hqi
      · rw [(h.mem j q).mp hq] at hnone
        cases hnone
    rw [Seg.unique (h' j) hkeep]
    exact hxs j

lemma Holds.descending_sublist (h : w.Holds xs) (hxs : Descending xs) (hed : w.Edited w' i (xs i) new)
    (hsub : new.Sublist (xs i)) (h' : ∀ j, IsList w'.store.links (w'.slots j) (xs' j)) :
    Descending xs' :=
  h.descending hxs hed ((hxs i).sublist hsub) (fun _ hq => .inl (hsub.subset hq)) h'

lemma descending_init : Descending fun _ : Fin N => [] := fun _ => List.Pairwise.nil

lemma Holds.add_descending (h : w.Holds xs) (hxs : Descending xs) {timeout : ℤ} (hT : 0 ≤ timeout)
    (f : D → A) (d : D) :
    ∃ w₁ w' xs', w.addTimer timeout = some (w₁, some w.store.fresh) ∧
      w₁.setCallback (some w.store.fresh) f d = some w' ∧ w'.Holds xs' ∧ Descending xs' ∧
      Countdown.Step w.countdown (.start w.store.fresh (ticksOf timeout) (f d)) w'.countdown := by
  obtain ⟨w₁, w', hw₁, hw', ⟨xs', h'⟩, hstep⟩ := h.add hT f d
  obtain ⟨v₁, v', hv₁, hv', hed, -⟩ := addTimer_setCallback_spec hT f d (h.isList _)
  cases hw₁.symm.trans hv₁
  cases hw'.symm.trans hv'
  have hnone : w.timeSlot w.store.fresh = none := by
    rw [timeSlot, data_of_fresh_le le_rfl, Option.map_none]
  refine ⟨w₁, w', xs', hw₁, hw', h', h.descending hxs hed ?_ ?_ h'.isList, hstep⟩
  · refine List.pairwise_cons.mpr ⟨fun q hq => ?_, hxs _⟩
    obtain ⟨t, ht⟩ := Store.cell_of_mem (h.isList _) hq
    exact w.store.lt_fresh q ht
  · intro q hq
    rcases List.mem_cons.mp hq with rfl | hq
    · exact .inr hnone
    · exact .inl hq

lemma Holds.del_descending (h : w.Holds xs) (hxs : Descending xs) {t : TwTimer D A}
    (ht : w.store.cell timer = some t) :
    ∃ w' xs', w.delTimer (some timer) = some w' ∧ w'.Holds xs' ∧ Descending xs' ∧
      Countdown.Step w.countdown (.stop timer) w'.countdown := by
  obtain ⟨w', hw', ⟨xs', h'⟩, hstep⟩ := h.del ht
  obtain ⟨a, b, hab⟩ := h.cell (Store.data_of_cell ht)
  have hl := h.isList t.timeSlot
  rw [show xs t.timeSlot = _ from hab] at hl
  obtain ⟨v', hv', hed, -⟩ := delTimer_spec hl ht rfl
  cases hw'.symm.trans hv'
  rw [← show xs t.timeSlot = _ from hab] at hed
  refine ⟨w', xs', hw', h', h.descending_sublist hxs hed ?_ h'.isList, hstep⟩
  rw [show xs t.timeSlot = _ from hab]
  exact (List.sublist_cons_self timer b).append_left a

/-- The newest of the timers that a tick calls is called first. -/
lemma Holds.tick_descending (h : w.Holds xs) (hxs : Descending xs) :
    ∃ w' calls xs', w.tick = some (w', calls) ∧ w'.Holds xs' ∧ Descending xs' ∧
      (calls.map Prod.fst).Pairwise (· > ·) ∧
      Countdown.Step w.countdown (.tick calls) w'.countdown := by
  obtain ⟨w', calls, hw', ⟨xs', h'⟩, hstep⟩ := h.tick
  obtain ⟨v', calls', hv', hv⟩ := tick_spec (h.isList w.curSlot) fun p _ t ht => h.armed p t ht
  cases hw'.symm.trans hv'
  refine ⟨_, calls, xs', hw', h', ?_, (hxs _).sublist hv.timers, hstep⟩
  exact h.descending_sublist hxs hv.edited List.filter_sublist h'.isList

/-! ### The order of the list -/

/-- What the callback of a timer of the list does. -/
def actOf (l : SortTimerLst D A) (p : ℕ) : Option A :=
  (l.store.data p).map fun t => t.cbFunc t.userData

lemma actOf_congr (hdata : l'.store.data p = l.store.data p) : actOf l' p = actOf l p := by
  rw [actOf, actOf, hdata]

lemma actOf_add (e : ℤ) (f : D → A) (d : D) {l₁ : SortTimerLst D A}
    (hnew : l.newTimer e f d = (l₁, timer)) (hadd : l₁.addTimer (some timer) = some l') :
    actOf l' timer = some (f d) ∧ (∀ r, r ≠ timer → actOf l' r = actOf l r) ∧
      l'.store.fresh = l.store.fresh + 1 := by
  cases hnew
  have hrel := SortTimerLst.relinked_addTimer hadd
  have hcell : (l.store.new ⟨⟨none, none⟩, e, f, d⟩).cell l.store.fresh = some ⟨⟨none, none⟩, e, f, d⟩ :=
    if_pos rfl
  refine ⟨?_, fun r hr => actOf_congr ?_, hrel.fresh⟩
  · rw [actOf, hrel.data, Store.data_of_cell hcell]
    rfl
  · rw [hrel.data]
    simp [Store.data, Store.view, hr]

/-- The oldest of the timers with the same deadline is called first. -/
lemma tick_ascending (r : l.Refines h ts) (haged : h.queue.Aged)
    (hlater : ∀ p e, h.queue.Until p e → cur ≤ e) :
    ∃ l' calls ts', l.tick cur = some (l', calls) ∧ l'.Refines (h.tick cur calls) ts' ∧
      (∀ p, p ∈ calls.map Prod.fst ↔ h.queue.Due cur p) ∧ (calls.map Prod.fst).Pairwise (· < ·) ∧
      (∀ p, p ∉ calls.map Prod.fst → actOf l' p = actOf l p) ∧
      (∀ p a, (p, a) ∈ calls → actOf l p = some a) ∧ l'.store.fresh = l.store.fresh := by
  obtain ⟨l', calls, r₁, r₂, hl', rfl, htick, hdue, hnot, r'⟩ := r.tick cur
  refine ⟨l', calls, r₂, hl', r', ?_, ?_, ?_, ?_, htick.removed.fresh⟩
  · intro p
    rw [htick.timers]
    refine ⟨hdue p, fun hp => ?_⟩
    rcases List.mem_append.mp ((r.lists.mem p).mpr hp.waits) with hmem | hmem
    · exact hmem
    · exact absurd hp (hnot p hmem)
  · rw [htick.timers]
    refine (List.pairwise_append.mp r.lists.pairwise).1.imp_of_mem fun {p q} hp hq hb => ?_
    obtain ⟨e, he, hle⟩ := hdue p hp
    obtain ⟨e', he', hle'⟩ := hdue q hq
    obtain rfl : e = cur := le_antisymm hle (hlater p e he)
    obtain rfl : e' = e := le_antisymm hle' (hlater q e' he')
    exact haged.lt_of_before hb he he'
  · intro p hp
    rw [htick.timers] at hp
    exact actOf_congr (by rw [htick.removed.data, if_neg hp])
  · intro p a hmem
    obtain ⟨t, ht, rfl⟩ := htick.calls (p, a) hmem
    rw [actOf, ht, Option.map_some]

/-! ### The two together -/

/-- The wheel and the list keep the same timers, for the same ticks. -/
structure Agrees (s : Both D A) (h : SortTimerLst.History A) : Prop where
  wheel : ∃ xs, s.wheel.Holds xs ∧ Descending xs
  list : ∃ ts, s.list.Refines h ts
  kept : s.list.Kept h
  fresh : s.list.store.fresh = s.wheel.store.fresh
  sync : Synchronous s.wheel.countdown h.queue s.clock (actOf s.list)
  aged : h.queue.Aged

lemma agrees_init : Agrees (Both.init : Both D A) .init := by
  have hempty : ∀ p e, ¬ (SortTimerLst.History.init : SortTimerLst.History A).queue.Until p e := by
    rintro p e ⟨n, hn⟩
    cases hn
  refine ⟨⟨_, holds_init, descending_init⟩, ⟨_, .init⟩, SortTimerLst.kept_init, rfl,
    ⟨fun p k a => ?_, fun p e he => ?_⟩, ?_⟩
  · exact iff_of_false (fun hleft => nomatch hleft) fun hu => hempty _ _ hu.1
  · exact absurd he (hempty p e)
  · intro p r k k' hk
    cases hk

lemma expireOf_eq {timeout : ℤ} (hT : 0 ≤ timeout) :
    s.expireOf timeout = s.clock + 1 + ticksOf timeout := by
  rw [Both.expireOf, ← ticksOf_eq hT]
  ring

lemma timeout_nonneg {timeout : ℤ} {p : ℕ} (hadd : w.addTimer timeout = some (w', some p)) :
    0 ≤ timeout := by
  by_contra hneg
  rw [addTimer, if_pos (not_le.mp hneg)] at hadd
  cases hadd

lemma Agrees.waits (hs : Agrees s h) {t : TwTimer D A} (ht : s.wheel.store.cell timer = some t) :
    h.queue.Waits timer := by
  obtain ⟨xs, hx, -⟩ := hs.wheel
  have hdata := Store.data_of_cell ht
  obtain ⟨a, ha⟩ := Option.ne_none_iff_exists'.mp (hx.armed timer _ hdata)
  exact ((hs.sync.left _ _ _).mp (left_of_data hdata ha)).1.waits

/-- A timer that lives in the list lives in the wheel. -/
lemma Agrees.lives (hs : Agrees s h) (ht : s.list.store.cell timer ≠ none) :
    s.wheel.store.cell timer ≠ none := by
  obtain ⟨t, ht⟩ := Option.ne_none_iff_exists'.mp ht
  have hdata := Store.data_of_cell ht
  obtain ⟨e, he⟩ := (hs.kept timer (by simp [hdata])).until
  have hlater := hs.sync.later timer e he
  have hact : actOf s.list timer = some (t.cbFunc t.userData) := by
    rw [actOf, hdata]
    rfl
  have hleft : s.wheel.left timer = some ((e - (s.clock + 1)).toNat, t.cbFunc t.userData) := by
    refine (hs.sync.left _ _ _).mpr ⟨?_, hact⟩
    rwa [Int.toNat_of_nonneg (by omega), add_sub_cancel]
  intro hnone
  rw [left_eq_none (by simp [Store.data, Store.view, hnone])] at hleft
  cases hleft

lemma Agrees.add (hs : Agrees s h) {timeout : ℤ} (hT : 0 ≤ timeout) (f : D → A) (d : D) :
    ∃ s', Both.Step s (.add s.wheel.store.fresh timeout f d) s' ∧
      Agrees s' (h.set s.wheel.store.fresh (s.expireOf timeout)) := by
  obtain ⟨xs, hx, hdesc⟩ := hs.wheel
  obtain ⟨ts, r⟩ := hs.list
  obtain ⟨w₁, w, xs', hw₁, hw, hx', hdesc', hstep⟩ := hx.add_descending hdesc hT f d
  obtain ⟨l, ts', hl, r', -⟩ := r.add (s.expireOf timeout) f d
  have hnew : s.list.newTimer (s.expireOf timeout) f d =
      ((s.list.newTimer (s.expireOf timeout) f d).1, s.wheel.store.fresh) := by
    rw [← hs.fresh]
    rfl
  rw [hs.fresh] at hl r'
  obtain ⟨hact, hother, hlist⟩ := actOf_add _ f d hnew hl
  have hfresh : w.store.fresh = s.wheel.store.fresh + 1 := by
    cases hstep with
    | start _ _ hfresh => exact hfresh
  refine ⟨_, .add timeout f d hw₁ hw hnew hl, ⟨_, hx', hdesc'⟩, ⟨_, r'⟩, hs.kept.add hnew hl,
    ?_, ?_, ?_⟩
  · rw [hlist, hfresh, hs.fresh]
  · have hsync := hs.sync.start hstep hact hother
    rwa [← expireOf_eq hT] at hsync
  · exact hs.aged.put fun q hq => hs.fresh ▸ r.lt_fresh_of_waits hq

lemma Agrees.del (hs : Agrees s h) {t : TwTimer D A} (ht : s.wheel.store.cell timer = some t) :
    ∃ s', Both.Step s (.del timer) s' ∧ Agrees s' (h.del timer) := by
  obtain ⟨xs, hx, hdesc⟩ := hs.wheel
  obtain ⟨ts, r⟩ := hs.list
  obtain ⟨w, xs', hw, hx', hdesc', hstep⟩ := hx.del_descending hdesc ht
  obtain ⟨l, ts', hl, r', -⟩ := r.del (hs.waits ht)
  obtain ⟨a, b, rfl⟩ := List.append_of_mem ((r.lists.mem timer).mpr (hs.waits ht))
  obtain ⟨l₀, hl₀, -, hrem⟩ := SortTimerLst.delTimer_spec r.holds
  cases hl.symm.trans hl₀
  have hfresh : w.store.fresh = s.wheel.store.fresh := by
    cases hstep with
    | stop _ _ hfresh => exact hfresh
  have hother : ∀ q, q ≠ timer → actOf l q = actOf s.list q := fun q hq =>
    actOf_congr (by rw [hrem.data, if_neg (by simpa using hq)])
  have hkept := hs.kept.del r (hs.waits ht) hl
  refine ⟨_, .del timer hw hl, ⟨_, hx', hdesc'⟩, ⟨_, r'⟩, hkept, ?_, hs.sync.stop hstep hother,
    hs.aged.remove⟩
  rw [hrem.fresh, hfresh, hs.fresh]

/-- The calls of a tick are the same, and in opposite orders. -/
lemma Agrees.tick (hs : Agrees s h) :
    ∃ s' cw cl, Both.Step s (.tick cw cl) s' ∧ cw = cl.reverse ∧
      Agrees s' (h.tick (s.clock + 1) cl) := by
  obtain ⟨xs, hx, hdesc⟩ := hs.wheel
  obtain ⟨ts, r⟩ := hs.list
  obtain ⟨w, cw, xs', hw, hx', hdesc', hcw, hstep⟩ := hx.tick_descending hdesc
  obtain ⟨l, cl, ts', hl, r', hdue, hcl, hother, hact, hlist⟩ := tick_ascending r hs.aged hs.sync.later
  obtain ⟨hsync, hmem⟩ := hs.sync.tick hstep hdue hother
  have hfresh : w.store.fresh = s.wheel.store.fresh := by
    cases hstep with
    | tick _ _ hfresh => exact hfresh
  have hsame : ∀ c, c ∈ cw ↔ c ∈ cl := by
    rintro ⟨p, a⟩
    rw [hmem]
    constructor
    · rintro ⟨hp, ha⟩
      obtain ⟨⟨q, b⟩, hb, rfl⟩ := List.mem_map.mp hp
      obtain rfl := Option.some_inj.mp (ha.symm.trans (hact q b hb))
      exact hb
    · exact fun hc => ⟨List.mem_map_of_mem hc, hact p a hc⟩
  have hkept := hs.kept.tick r hl
  refine ⟨_, cw, cl, .tick hw hl, ?_, ⟨_, hx', hdesc'⟩, ⟨_, r'⟩, hkept, ?_, hsync, hs.aged.remove⟩
  · -- both are in descending order, and have the same members
    rw [List.pairwise_map] at hcw hcl
    have hnodup : ∀ {cs : List (ℕ × A)}, cs.Pairwise (fun x y => x.1 > y.1) → cs.Nodup := fun hcs =>
      hcs.imp fun hgt heq => (lt_irrefl _ (heq ▸ hgt)).elim
    have hrev := List.pairwise_reverse.mpr hcl
    have hperm : cw.Perm cl.reverse := (List.perm_ext_iff_of_nodup (hnodup hcw) (hnodup hrev)).mpr
      fun c => by rw [hsame, List.mem_reverse]
    exact hperm.eq_of_pairwise (fun x y _ _ hxy hyx => absurd hxy (lt_asymm hyx)) hcw hrev
  · rw [hlist, hfresh, hs.fresh]

/-- What the two do together is what each is sure to do. -/
lemma Agrees.step (hs : Agrees s h) (hstep : Both.Step s e s') :
    (∃ h', Agrees s' h') ∧ ∀ cw cl, e = .tick cw cl → cw = cl.reverse := by
  cases hstep with
  | add timeout f d hw₁ hw hl₁ hl =>
    obtain ⟨v, hv, hagree⟩ := hs.add (timeout_nonneg hw₁) f d
    cases hv with
    | add _ _ _ hv₁ hv hm₁ hm =>
      cases hw₁.symm.trans hv₁
      cases hw.symm.trans hv
      cases hl₁.symm.trans hm₁
      cases hl.symm.trans hm
      exact ⟨⟨_, hagree⟩, by simp⟩
  | del timer hw hl =>
    obtain ⟨t, ht, -⟩ := Option.bind_eq_some_iff.mp hw
    obtain ⟨v, hv, hagree⟩ := hs.del ht
    cases hv with
    | del _ hv hm =>
      cases hw.symm.trans hv
      cases hl.symm.trans hm
      exact ⟨⟨_, hagree⟩, by simp⟩
  | tick hw hl =>
    obtain ⟨v, cw, cl, hv, hrev, hagree⟩ := hs.tick
    cases hv with
    | tick hv hm =>
      cases hw.symm.trans hv
      cases hl.symm.trans hm
      refine ⟨⟨_, hagree⟩, ?_⟩
      rintro cw cl ⟨⟩
      exact hrev

/-- What the callers may do next on one side can be done on both. -/
structure Both.Defined (s : Both D A) : Prop where
  add : ∀ timeout f d, 0 ≤ timeout → ∃ s', Both.Step s (.add s.wheel.store.fresh timeout f d) s'
  del : ∀ timer, s.wheel.store.cell timer ≠ none ∨ s.list.store.cell timer ≠ none →
    ∃ s', Both.Step s (.del timer) s'
  tick : ∃ cw cl s', Both.Step s (.tick cw cl) s'

lemma Agrees.defined (hs : Agrees s h) : s.Defined where
  add timeout f d hT := by
    obtain ⟨s', hs', -⟩ := hs.add hT f d
    exact ⟨s', hs'⟩
  del timer ht := by
    obtain ⟨t, ht⟩ := Option.ne_none_iff_exists'.mp (ht.elim id hs.lives)
    obtain ⟨s', hs', -⟩ := hs.del ht
    exact ⟨s', hs'⟩
  tick := by
    obtain ⟨s', cw, cl, hs', -⟩ := hs.tick
    exact ⟨cw, cl, s', hs'⟩

/-- In every run of the two, every tick of the wheel makes exactly the calls of the list, in the
opposite order; and what is defined on one side next is defined on the other. -/
theorem run_agrees (hrun : Trace Both.Step (Both.init : Both D A) es s) :
    (∀ cw cl, .tick cw cl ∈ es → cw = cl.reverse) ∧ s.Defined := by
  have hstart : (∃ h, Agrees (Both.init : Both D A) h) ∧
      ∀ cw cl, Both.Event.tick cw cl ∈ ([] : List (Both.Event D A)) → cw = cl.reverse :=
    ⟨⟨_, agrees_init⟩, by simp⟩
  have hinv : (∃ h, Agrees s h) ∧ ∀ cw cl, .tick cw cl ∈ ([] ++ es) → cw = cl.reverse := by
    refine hrun.history
      (I := fun s es => (∃ h, Agrees s h) ∧ ∀ cw cl, .tick cw cl ∈ es → cw = cl.reverse) ?_ hstart
    rintro s es e s' ⟨⟨h, hs⟩, hall⟩ hstep
    obtain ⟨hagree, hrev⟩ := hs.step hstep
    refine ⟨hagree, fun cw cl hmem => ?_⟩
    rcases List.mem_append.mp hmem with hold | hnew
    · exact hall cw cl hold
    · exact hrev cw cl (List.mem_singleton.mp hnew).symm
  obtain ⟨⟨h, hs⟩, hall⟩ := hinv
  exact ⟨hall, hs.defined⟩

/-- Two timers for one tick. -/
theorem run_agrees_two :
    ∃ (es : List (Both.Event ℕ ℕ)) (s : Both ℕ ℕ), Trace Both.Step .init es s ∧
      .tick [(1, 8), (0, 7)] [(0, 7), (1, 8)] ∈ es ∧ s.Defined := by
  have hrun : Trace Both.Step (.init : Both ℕ ℕ) [.add 0 1 id 7, .add 1 1 id 8, .tick [] [],
      .tick [(1, 8), (0, 7)] [(0, 7), (1, 8)]] _ :=
    .cons (.add 1 id 7 rfl rfl rfl rfl) (.cons (.add 1 id 8 rfl rfl rfl rfl)
      (.cons (.tick rfl rfl) (.cons (.tick rfl rfl) (.nil _))))
  exact ⟨_, _, hrun, by simp, (run_agrees hrun).2⟩

end LinuxServer.TimeWheel
