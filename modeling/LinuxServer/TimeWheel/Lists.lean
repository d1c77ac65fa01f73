import LinuxServer.TimeWheel.Runs

/-!
# The lists of the time wheel

What the slots hold after any run: every timer that was added and is neither deleted nor called since is
on one list, the one of the slot that it names, and `prev` leads back along each list. A tick
comes to every timer of its slot once, although it deletes some of them on its way.
-/

namespace LinuxServer

open Core Core.Dll

variable {D A : Type*}

namespace TimeWheel

/-! ### The way of a tick -/

/-- A turn of the loop of `tick`: the wheel behind it, the next `tmp`, and the call if there is one. -/
def turn (w : TimeWheel D A) (tmp : ℕ) : Option (TimeWheel D A × Link × Option A) := do
  let t ← w.store.cell tmp
  if 0 < t.rotation then
    let s ← w.store.assign (some tmp) fun t => { t with rotation := t.rotation - 1 }
    some ({ w with store := s }, t.next, none)
  else
    match t.cbFunc, t.userData with
    | some f, some d => do
      let w ← w.remove w.curSlot tmp
      some (w, t.next, some (f d))
    | _, _ => none

/-- The values of `tmp` in the loop of `tick`, up to the null pointer. -/
def tmps : ℕ → TimeWheel D A → Link → List ℕ
  | 0, _, _ => []
  | _ + 1, _, none => []
  | fuel + 1, w, some tmp =>
    tmp :: match w.turn tmp with
      | some (w, next, _) => tmps fuel w next
      | none => []

/-- The timers that the next `tick` comes to, in order. -/
def visited (w : TimeWheel D A) : List ℕ := tmps (w.store.fresh + 1) w (w.slots w.curSlot)

variable {w w' w₁ w₂ : TimeWheel D A} {i : Fin N} {p timer tmp : ℕ} {t : TwTimer D A} {a : A}
  {xs : Fin N → List ℕ} {l₁ l₂ : List ℕ} {e : Event D A} {es : List (Event D A)}
  {calls : List (ℕ × A)}

/-- The loop of `tick` is its turns. -/
lemma tickLoop_succ (fuel : ℕ) (w : TimeWheel D A) (tmp : ℕ) :
    tickLoop (fuel + 1) w (some tmp) = (w.turn tmp).bind fun r =>
      (tickLoop fuel r.1 r.2.1).map fun x => (x.1, (r.2.2.map (tmp, ·)).toList ++ x.2) := by
  rw [tickLoop, turn]
  cases ht : w.store.cell tmp with
  | none => rfl
  | some t =>
    simp only [Option.bind_eq_bind, Option.bind_some]
    split
    next hrot =>
      cases w.store.assign (some tmp) fun t => { t with rotation := t.rotation - 1 } with
      | none => rfl
      | some s => cases htick : tickLoop fuel { w with store := s } t.next <;> simp [htick]
    next hrot =>
      cases t.cbFunc with
      | none => rfl
      | some f =>
        cases t.userData with
        | none => rfl
        | some d =>
          cases w.remove w.curSlot tmp with
          | none => rfl
          | some w₁ => cases htick : tickLoop fuel w₁ t.next <;> simp [htick]

/-- A turn leads on to the next timer of the list, whatever it does to this one. -/
lemma turn_spec (hl : IsList w.store.links (w.slots w.curSlot) (l₁ ++ tmp :: l₂))
    (hcall : ∀ p ∈ tmp :: l₂, ∀ t, w.store.data p = some t → t.call ≠ none) :
    ∃ w₁ call l, w.turn tmp = some (w₁, l₂.head?, call) ∧
      IsList w₁.store.links (w₁.slots w₁.curSlot) (l ++ l₂) ∧
      ∀ p ∈ l₂, w₁.store.data p = w.store.data p := by
  obtain ⟨t, ht, hnode⟩ := Store.cell_of_links hl.links_at
  have hnext : t.next = l₂.head? := congrArg Node.next hnode
  have hx : tmp ∉ l₁ ++ l₂ := (List.nodup_cons.mp (List.nodup_middle.mp hl.nodup)).1
  have hne : ∀ q ∈ l₂, q ≠ tmp := fun q hq heq => hx (List.mem_append_right _ (heq ▸ hq))
  rw [turn]
  simp only [ht, Option.bind_eq_bind, Option.bind_some, hnext]
  split
  next hrot =>
    obtain ⟨s, hs, hlinks, -, hdata⟩ := wait_spec ht hrot
    refine ⟨{ w with store := s }, none, l₁ ++ [tmp], ?_, ?_, fun p hp => ?_⟩
    · rw [hs, Option.bind_some]
    · rw [List.append_assoc, List.singleton_append]
      exact hl.congr fun q _ => congrFun hlinks q
    · rw [hdata, if_neg (hne p hp)]
  next hrot =>
    obtain ⟨w₁, hw₁, hed, hrem⟩ := remove_spec hl
    obtain ⟨a, ha⟩ := Option.ne_none_iff_exists'.mp
      (hcall tmp List.mem_cons_self _ (Store.data_of_cell ht))
    obtain ⟨f, hf, hmap⟩ := Option.bind_eq_some_iff.mp ha
    obtain ⟨d, hd, -⟩ := Option.map_eq_some_iff.mp hmap
    have hf' : t.cbFunc = some f := hf
    have hd' : t.userData = some d := hd
    refine ⟨w₁, some (f d), l₁, ?_, hed.curSlot ▸ hed.isList, fun p hp => ?_⟩
    · rw [hf', hd']
      simp only [hw₁, Option.bind_some]
    · rw [hrem.data, if_neg]
      simpa using hne p hp

/-- The loop comes to what is left of the list, one timer after the other. -/
lemma tmps_eq : ∀ (l₂ l₁ : List ℕ) (fuel : ℕ) (w : TimeWheel D A),
    IsList w.store.links (w.slots w.curSlot) (l₁ ++ l₂) →
    (∀ p ∈ l₂, ∀ t, w.store.data p = some t → t.call ≠ none) → l₂.length < fuel →
    tmps fuel w l₂.head? = l₂
  | _, _, 0, _, _, _, hfuel => absurd hfuel (Nat.not_lt_zero _)
  | [], _, _ + 1, _, _, _, _ => rfl
  | tmp :: l₂, l₁, fuel + 1, w, hl, hcall, hfuel => by
    obtain ⟨w₁, call, l, hturn, hl', hdata⟩ := turn_spec hl hcall
    have ih := tmps_eq l₂ l fuel w₁ hl'
      (fun p hp t ht => hcall p (List.mem_cons_of_mem tmp hp) t (hdata p hp ▸ ht))
      (Nat.lt_of_succ_lt_succ hfuel)
    rw [List.head?_cons, tmps, hturn]
    exact congrArg (tmp :: ·) ih

lemma Holds.visited_eq (h : w.Holds xs) : w.visited = xs w.curSlot := by
  have hl := h.isList w.curSlot
  rw [visited, hl.head_eq]
  exact tmps_eq _ [] _ w hl (fun p _ t ht => h.armed p t ht)
    (Nat.lt_succ_of_le (Store.length_le_fresh hl))

/-! ### The timers of a run -/

/-- What an event does to the timers that wait. -/
def Event.waiting : Event D A → Finset ℕ → Finset ℕ
  | .add timer _ _ _, ps => insert timer ps
  | .reject _, ps => ps
  | .del none, ps => ps
  | .del (some timer), ps => ps.erase timer
  | .tick calls, ps => ps \ (calls.map Prod.fst).toFinset

/-- The timers that were added and are neither deleted nor called since. -/
def waiting (es : List (Event D A)) : Finset ℕ := es.foldl (fun ps e => e.waiting ps) ∅

/-- The timers that were added. -/
def added (es : List (Event D A)) : List ℕ :=
  es.filterMap fun
    | .add timer _ _ _ => some timer
    | _ => none

/-- The lists of the slots after the events `es`. -/
structure Lists (w : TimeWheel D A) (es : List (Event D A)) (xs : Fin N → List ℕ) : Prop where
  isList : ∀ i, IsList w.store.links (w.slots i) (xs i)
  nodup : ∀ i, (xs i).Nodup
  waiting : ∀ p, p ∈ waiting es ↔ ∃ i, p ∈ xs i
  timeSlot : ∀ i, ∀ p ∈ xs i, ∃ t, w.store.cell p = some t ∧ t.timeSlot = i
  head : ∀ i p t, w.slots i = some p → w.store.cell p = some t → t.prev = none
  links : ∀ p t q, w.store.cell p = some t → t.next = some q ∨ t.prev = some q →
    ∃ u, w.store.cell q = some u ∧ u.timeSlot = t.timeSlot
  inverse : ∀ p t q u, w.store.cell p = some t → w.store.cell q = some u →
    (t.next = some q ↔ u.prev = some p)
  added : (added es).Nodup

/-- A tick that comes to the timers `ps`, once to each: a timer without a rotation left is called and
deleted, and another one loses a rotation. -/
structure Visits (w w' : TimeWheel D A) (calls : List (ℕ × A)) (ps : List ℕ) : Prop where
  visited : w.visited = ps
  nodup : ps.Nodup
  called : ∀ p ∈ ps, ∀ t, w.store.data p = some t → t.rotation = 0 →
    p ∈ calls.map Prod.fst ∧ w'.store.cell p = none
  waits : ∀ p ∈ ps, ∀ t, w.store.data p = some t → 0 < t.rotation →
    p ∉ calls.map Prod.fst ∧ w'.store.data p = some { t with rotation := t.rotation - 1 }
  others : ∀ p, p ∉ ps → p ∉ calls.map Prod.fst ∧ w'.store.data p = w.store.data p

/-- The timers that have something left are the ones that wait, and every name that was given is below
`fresh`. -/
structure Waits (w : TimeWheel D A) (es : List (Event D A)) : Prop where
  left : ∀ p, p ∈ waiting es ↔ (w.left p).isSome
  added : (added es).Nodup
  lt_fresh : ∀ p ∈ TimeWheel.added es, p < w.store.fresh

lemma waits_init : (init : TimeWheel D A).Waits [] :=
  have hleft : ∀ p, (init : TimeWheel D A).left p = none := fun p =>
    left_eq_none (data_of_fresh_le p.zero_le)
  ⟨fun p => by simp [waiting, hleft], List.nodup_nil, by simp [TimeWheel.added]⟩

lemma waiting_snoc (es : List (Event D A)) (e : Event D A) :
    waiting (es ++ [e]) = e.waiting (waiting es) := List.foldl_append

lemma added_snoc (es : List (Event D A)) (e : Event D A) :
    added (es ++ [e]) = added es ++ added [e] := List.filterMap_append

/-- A step that adds no timer. -/
lemma Waits.of_left (h : w.Waits es) (hadded : TimeWheel.added [e] = []) (hfresh : w'.store.fresh = w.store.fresh)
    (hleft : ∀ p, p ∈ e.waiting (waiting es) ↔ (w'.left p).isSome) : w'.Waits (es ++ [e]) := by
  refine ⟨fun p => ?_, ?_, ?_⟩
  · rw [waiting_snoc]
    exact hleft p
  · rw [added_snoc, hadded, List.append_nil]
    exact h.added
  · rw [added_snoc, hadded, List.append_nil, hfresh]
    exact h.lt_fresh

/-- A step that does nothing to the timers. -/
lemma Waits.skip (h : w.Waits es) (hadded : TimeWheel.added [e] = []) (hwaiting : ∀ ps, e.waiting ps = ps)
    (hfresh : w'.store.fresh = w.store.fresh) (hleft : w'.left = w.left) : w'.Waits (es ++ [e]) := by
  refine h.of_left hadded hfresh fun p => ?_
  rw [hwaiting, hleft]
  exact h.left p

/-- A timer is added under a name that was not given before. -/
lemma Waits.start {k : ℕ} {timeout : ℤ} {f : D → A} {d : D} (h : w.Waits es)
    (hfresh : w'.store.fresh = w.store.fresh + 1)
    (hleft : w'.left = Function.update w.left w.store.fresh (some (k, a))) :
    w'.Waits (es ++ [.add w.store.fresh timeout f d]) := by
  refine ⟨fun p => ?_, ?_, ?_⟩
  · rw [waiting_snoc, hleft, Event.waiting, Finset.mem_insert, h.left]
    by_cases hp : p = w.store.fresh
    · subst hp
      rw [Function.update_self]
      exact iff_of_true (.inl rfl) rfl
    · rw [Function.update_of_ne hp]
      exact or_iff_right hp
  · rw [added_snoc]
    refine h.added.append (List.nodup_singleton _) (List.disjoint_singleton.mpr fun hmem => ?_)
    exact lt_irrefl _ (h.lt_fresh _ hmem)
  · intro p hp
    rw [added_snoc, List.mem_append] at hp
    rcases hp with hp | hp
    · have hlt := h.lt_fresh p hp
      omega
    · obtain rfl : p = w.store.fresh := List.mem_singleton.mp hp
      omega

lemma Waits.stop (h : w.Waits es) (hfresh : w'.store.fresh = w.store.fresh)
    (hleft : w'.left = Function.update w.left timer none) : w'.Waits (es ++ [.del (some timer)]) := by
  refine h.of_left rfl hfresh fun p => ?_
  rw [hleft, Event.waiting, Finset.mem_erase, h.left]
  by_cases hp : p = timer
  · subst hp
    simp
  · rw [Function.update_of_ne hp]
    exact and_iff_right hp

/-- The timers that are called wait no longer. -/
lemma Waits.tick {calls : List (ℕ × A)} (h : w.Waits es)
    (hfired : ∀ p a, (p, a) ∈ calls ↔ w.left p = some (0, a)) (hfresh : w'.store.fresh = w.store.fresh)
    (hleft : ∀ p, w'.left p = (w.left p).bind Countdown.dec) : w'.Waits (es ++ [.tick calls]) := by
  refine h.of_left rfl hfresh fun p => ?_
  have hcalls : p ∈ calls.map Prod.fst ↔ ∃ a, w.left p = some (0, a) := by
    constructor
    · rintro hmem
      obtain ⟨⟨q, a⟩, hqa, rfl⟩ := List.mem_map.mp hmem
      exact ⟨a, (hfired q a).mp hqa⟩
    · rintro ⟨a, ha⟩
      exact List.mem_map.mpr ⟨(p, a), (hfired p a).mpr ha, rfl⟩
  rw [Event.waiting, Finset.mem_sdiff, List.mem_toFinset, h.left, hleft, hcalls]
  cases w.left p with
  | none => simp
  | some x =>
    obtain ⟨k, a⟩ := x
    cases k with
    | zero => simp [Countdown.dec]
    | succ k => simp [Countdown.dec]

/-- What a step does to the timers that wait is what the countdown does. -/
lemma Step.waits (hs : Step w e w') (h : w.Holds xs) (hw : w.Waits es) : w'.Waits (es ++ [e]) := by
  obtain ⟨-, hc⟩ := hs.countdown h
  cases e with
  | add timer timeout f d =>
    cases hc with
    | start k a hfresh hleft => exact hw.start hfresh hleft
  | reject timeout =>
    cases hc with
    | skip hfresh hleft => exact hw.skip rfl (fun _ => rfl) hfresh hleft
  | del timer =>
    cases timer with
    | none =>
      cases hc with
      | skip hfresh hleft => exact hw.skip rfl (fun _ => rfl) hfresh hleft
    | some timer =>
      cases hc with
      | stop _ hsome hfresh hleft => exact hw.stop hfresh hleft
  | tick calls =>
    cases hc with
    | tick hnd hfired hfresh hleft => exact hw.tick hfired hfresh hleft

theorem run_waits (hrun : Trace Step init es w) : (∃ xs, w.Holds xs) ∧ w.Waits es := by
  have hstep : ∀ (w : TimeWheel D A) es e w', (∃ xs, w.Holds xs) ∧ w.Waits es → Step w e w' →
      (∃ xs, w'.Holds xs) ∧ w'.Waits (es ++ [e]) := by
    rintro w es e w' ⟨⟨xs, h⟩, hw⟩ hs
    exact ⟨(hs.countdown h).1, hs.waits h hw⟩
  exact hrun.history hstep ⟨⟨_, holds_init⟩, waits_init⟩

/-! ### The lists and the next tick -/

lemma Holds.left_isSome (h : w.Holds xs) (p : ℕ) : (w.left p).isSome ↔ ∃ i, p ∈ xs i := by
  cases hp : w.store.data p with
  | none => simp [left_eq_none hp, h.mem, timeSlot, hp]
  | some t =>
    obtain ⟨a, ha⟩ := Option.ne_none_iff_exists'.mp (h.armed p t hp)
    simp [left_of_data hp ha, h.mem, timeSlot_of_data hp]

/-- A timer of a slot names the slot. -/
lemma Holds.cell_of_mem (h : w.Holds xs) (hp : p ∈ xs i) :
    ∃ t, w.store.cell p = some t ∧ t.timeSlot = i := by
  obtain ⟨t, ht, hi⟩ := Option.map_eq_some_iff.mp ((h.mem i p).mp hp)
  obtain ⟨u, hu, rfl⟩ := Store.cell_of_data ht
  exact ⟨u, hu, hi⟩

lemma Holds.mem_of_cell (h : w.Holds xs) (ht : w.store.cell p = some t) : p ∈ xs t.timeSlot :=
  (h.mem t.timeSlot p).mpr ((timeSlot_of_data (Store.data_of_cell ht)).trans rfl)

lemma Holds.lists (h : w.Holds xs) (hw : w.Waits es) : w.Lists es xs where
  isList := h.isList
  nodup i := (h.isList i).nodup
  waiting p := (hw.left p).trans (h.left_isSome p)
  timeSlot _ _ hp := h.cell_of_mem hp
  head i p t hslot ht := by
    have hl := h.isList i
    obtain ⟨r, hr⟩ := List.head?_eq_some_iff.mp (hl.head_eq.symm.trans hslot)
    rw [hr] at hl
    exact congrArg Node.prev (Option.some.inj ((Store.links_of_cell ht).symm.trans hl.links_head))
  links p t q ht hq := by
    have hl := h.isList t.timeSlot
    rcases hq with hq | hq
    · exact h.cell_of_mem (hl.next_mem (h.mem_of_cell ht) (Store.links_of_cell ht) hq)
    · exact h.cell_of_mem (hl.prev_mem (h.mem_of_cell ht) (Store.links_of_cell ht) hq)
  inverse p t q u ht hu := by
    have hp := h.mem_of_cell ht
    have hq := h.mem_of_cell hu
    by_cases hslot : u.timeSlot = t.timeSlot
    · rw [hslot] at hq
      exact (h.isList t.timeSlot).next_iff_prev hp hq (Store.links_of_cell ht) (Store.links_of_cell hu)
    · -- the neighbours of a timer are on its own list
      have hone : ∀ i, q ∈ xs i → i = u.timeSlot := fun i hi =>
        Option.some.inj (((h.mem i q).mp hi).symm.trans ((h.mem _ q).mp hq))
      have hone' : ∀ i, p ∈ xs i → i = t.timeSlot := fun i hi =>
        Option.some.inj (((h.mem i p).mp hi).symm.trans ((h.mem _ p).mp hp))
      refine iff_of_false (fun hnext => hslot ?_) (fun hprev => hslot ?_)
      · exact (hone _ ((h.isList t.timeSlot).next_mem hp (Store.links_of_cell ht) hnext)).symm
      · exact hone' _ ((h.isList u.timeSlot).prev_mem hq (Store.links_of_cell hu) hprev)
  added := hw.added

/-- The next tick, from the slot that it begins at. -/
lemma Holds.visits (h : w.Holds xs) :
    ∃ w' calls, w.tick = some (w', calls) ∧ w.Visits w' calls (xs w.curSlot) := by
  obtain ⟨w', calls, hw', hv⟩ := tick_spec (h.isList w.curSlot) fun p _ t ht => h.armed p t ht
  have hcalls : ∀ p, p ∈ calls.map Prod.fst → p ∈ xs w.curSlot ∧
      ∃ t, w.store.data p = some t ∧ t.rotation = 0 := by
    intro p hp
    obtain ⟨⟨q, a⟩, hqa, rfl⟩ := List.mem_map.mp hp
    obtain ⟨hq, t, ht, hzero, -⟩ := (hv.calls q a).mp hqa
    exact ⟨hq, t, ht, hzero⟩
  refine ⟨_, calls, hw', h.visited_eq, (h.isList _).nodup, fun p hp t ht hzero => ⟨?_, ?_⟩,
    fun p hp t ht hpos => ⟨fun hmem => ?_, ?_⟩, fun p hp => ⟨fun hmem => hp (hcalls p hmem).1, ?_⟩⟩
  · obtain ⟨a, ha⟩ := Option.ne_none_iff_exists'.mp (h.armed p t ht)
    exact List.mem_map.mpr ⟨(p, a), (hv.calls p a).mpr ⟨hp, t, ht, hzero, ha⟩, rfl⟩
  · have hdata : w'.store.data p = none := by
      rw [hv.data, if_pos hp, ht, Option.bind_some, TwTimer.visit, if_neg (by omega)]
    by_contra hsome
    obtain ⟨u, hu⟩ := Option.ne_none_iff_exists'.mp hsome
    cases hdata.symm.trans (Store.data_of_cell hu)
  · obtain ⟨-, u, hu, hzero⟩ := hcalls p hmem
    cases ht.symm.trans hu
    omega
  · show w'.store.data p = _
    rw [hv.data, if_pos hp, ht, Option.bind_some, TwTimer.visit, if_pos hpos]
  · show w'.store.data p = _
    rw [hv.data, if_neg hp]

/-- In every run the slots hold the timers that wait, each on the list of the slot that it names, and
`prev` is the inverse of `next`; the next tick comes to each timer of its slot once. Every
operation that a caller may do next is defined. -/
theorem run_lists (hrun : Trace Step init es w) :
    ∃ xs, w.Lists es xs ∧ w.Defined ∧
      ∃ w' calls, w.tick = some (w', calls) ∧ w.Visits w' calls (xs w.curSlot) := by
  obtain ⟨⟨xs, h⟩, hw⟩ := run_waits hrun
  exact ⟨xs, h.lists hw, h.defined, h.visits⟩

/-- Three timers in one slot, of which the tick is to call the first and the last. -/
theorem run_lists_three : ∃ (w : TimeWheel ℕ ℕ) (es : List (Event ℕ ℕ)) (xs : Fin N → List ℕ),
    w.curSlot = slotOf 1 ∧ w.Lists es xs ∧ xs w.curSlot = [2, 1, 0] ∧
      ∃ w' calls, w.tick = some (w', calls) ∧ calls = [(2, 9), (0, 7)] := by
  have h₀ := Step.add (w := (init : TimeWheel ℕ ℕ)) 1 id 7 (rfl : _ = some (_, some 0)) rfl
  have h₁ := ((Trace.nil _).snoc h₀).snoc (.add 61 id 8 (rfl : _ = some (_, some 1)) rfl)
  have h₂ := h₁.snoc (.add 1 id 9 (rfl : _ = some (_, some 2)) rfl)
  have hrun := h₂.snoc (.tick rfl)
  obtain ⟨xs, hlists, -, w', calls, htick, hvisits⟩ := run_lists hrun
  refine ⟨_, _, xs, rfl, hlists, hvisits.visited.symm, w', calls, htick, ?_⟩
  cases htick
  rfl

end TimeWheel

end LinuxServer
