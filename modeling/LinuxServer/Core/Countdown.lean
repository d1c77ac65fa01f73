import LinuxServer.Core.Trace

/-!
# Countdowns

What a wheel of timers is for: an id started with `k` left is fired by the tick that finds it at
zero, and every other tick takes one off. Ids are never used twice, so an id names one timer. Each
id carries what its firing does.
-/

namespace Core

/-- How many ticks each running id has left before the one that fires it, and what it does. -/
structure Countdown (A : Type*) where
  left : ℕ → Option (ℕ × A)
  fresh : ℕ
  bound : ∀ p, fresh ≤ p → left p = none

namespace Countdown

variable {A : Type*}

inductive Event (A : Type*)
  | start (p k : ℕ) (a : A)
  | stop (p : ℕ)
  | tick (fired : List (ℕ × A))
  | skip

/-- One tick off, for an id that is not at zero. -/
def dec : ℕ × A → Option (ℕ × A)
  | (0, _) => none
  | (k + 1, a) => some (k, a)

inductive Step : Countdown A → Event A → Countdown A → Prop
  | start {c c' : Countdown A} (k : ℕ) (a : A) : c'.fresh = c.fresh + 1 →
      c'.left = Function.update c.left c.fresh (some (k, a)) → Step c (.start c.fresh k a) c'
  | stop {c c' : Countdown A} {x : ℕ × A} (p : ℕ) : c.left p = some x → c'.fresh = c.fresh →
      c'.left = Function.update c.left p none → Step c (.stop p) c'
  | tick {c c' : Countdown A} {fired : List (ℕ × A)} : (fired.map Prod.fst).Nodup →
      (∀ p a, (p, a) ∈ fired ↔ c.left p = some (0, a)) → c'.fresh = c.fresh →
      (∀ p, c'.left p = (c.left p).bind dec) → Step c (.tick fired) c'
  | skip {c c' : Countdown A} : c'.fresh = c.fresh → c'.left = c.left → Step c .skip c'

/-- What each tick of a trace fired. -/
def ticks (es : List (Event A)) : List (List (ℕ × A)) :=
  es.filterMap fun
    | .tick fired => some fired
    | _ => none

/-- The firings of `p` in one tick. -/
def hits (p : ℕ) (fired : List (ℕ × A)) : List (ℕ × A) := fired.filter fun f => f.1 = p

variable {c c' : Countdown A} {e : Event A} {es : List (Event A)} {p k : ℕ} {a : A}
  {fired : List (ℕ × A)}

@[simp] lemma ticks_tick : ticks (.tick fired :: es) = fired :: ticks es := rfl

lemma hits_eq_nil (h : ∀ b, (p, b) ∉ fired) : hits p fired = [] := by
  rw [hits, List.filter_eq_nil_iff]
  rintro ⟨q, b⟩ hmem hq
  obtain rfl : q = p := by simpa using hq
  exact h b hmem

/-- An id that is in a tick once is hit once. -/
lemma hits_eq_singleton (hnd : (fired.map Prod.fst).Nodup) (h : (p, a) ∈ fired) :
    hits p fired = [(p, a)] := by
  obtain ⟨l, r, rfl⟩ := List.append_of_mem h
  rw [List.map_append, List.map_cons, List.nodup_middle, List.nodup_cons] at hnd
  have hnot : ∀ b, (p, b) ∉ l ++ r := fun b hb =>
    hnd.1 (by rw [← List.map_append]; exact List.mem_map.mpr ⟨(p, b), hb, rfl⟩)
  have hl : hits p l = [] := hits_eq_nil fun b hb => hnot b (List.mem_append_left _ hb)
  have hr : hits p r = [] := hits_eq_nil fun b hb => hnot b (List.mem_append_right _ hb)
  rw [hits, List.filter_append, List.filter_cons_of_pos (by simp)]
  exact congrArg₂ (fun x y => x ++ (p, a) :: y) hl hr

lemma Step.fresh_le (h : Step c e c') : c.fresh ≤ c'.fresh := by
  cases h <;> omega

lemma lt_fresh {x : ℕ × A} (h : c.left p = some x) : p < c.fresh := by
  by_contra hp
  rw [c.bound p (by omega)] at h
  cases h

/-- An id that is gone stays gone. -/
lemma Step.left_none (h : Step c e c') (hp : c.left p = none) (hlt : p < c.fresh) :
    c'.left p = none := by
  cases h with
  | start k a _ hleft => rw [hleft, Function.update_of_ne (by omega), hp]
  | stop q _ _ hleft =>
    rw [hleft]
    by_cases hq : p = q <;> simp [Function.update, hq, hp]
  | tick _ _ _ hleft => rw [hleft, hp, Option.bind_none]
  | skip _ hleft => rw [hleft, hp]

/-- An id that is gone is neither fired nor stopped. -/
theorem gone (h : Trace Step c es c') (hp : c.left p = none) (hlt : p < c.fresh) :
    (∀ fired ∈ ticks es, hits p fired = []) ∧ .stop p ∉ es := by
  induction h with
  | nil => simp [ticks]
  | cons hs _ ih =>
    obtain ⟨hfired, hstop⟩ := ih (hs.left_none hp hlt) (lt_of_lt_of_le hlt hs.fresh_le)
    cases hs with
    | start => exact ⟨hfired, by simpa using hstop⟩
    | stop q hq =>
      have hne : p ≠ q := by
        rintro rfl
        rw [hp] at hq
        cases hq
      exact ⟨hfired, by simpa [hne] using hstop⟩
    | tick _ hmem =>
      refine ⟨?_, by simpa using hstop⟩
      rw [ticks_tick, List.forall_mem_cons]
      refine ⟨hits_eq_nil ?_, hfired⟩
      intro b hb
      have hzero := (hmem p b).mp hb
      rw [hp] at hzero
      cases hzero
    | skip => exact ⟨hfired, by simpa using hstop⟩

/-- An id with `k` left is fired by the tick with `k` ticks before it, once, and by no other one,
unless it is stopped; if it is stopped, it is never fired. -/
theorem fires (h : Trace Step c es c') (hp : c.left p = some (k, a)) :
    (.stop p ∉ es → ∀ i fired, (ticks es)[i]? = some fired →
      hits p fired = if i = k then [(p, a)] else []) ∧
    (.stop p ∈ es → ∀ fired ∈ ticks es, hits p fired = []) := by
  induction h generalizing k with
  | nil => simp [ticks]
  | @cons c c₁ c₂ e es hs htrace ih =>
    have hlt := lt_fresh hp
    cases hs with
    | start j b _ hleft =>
      have hp' : c₁.left p = some (k, a) := by rw [hleft, Function.update_of_ne (by omega), hp]
      simpa [ticks] using ih hp'
    | stop q hq hfresh hleft =>
      by_cases hpq : p = q
      · subst hpq
        have hp' : c₁.left p = none := by simp [hleft]
        obtain ⟨hfired, -⟩ := gone htrace hp' (by omega)
        exact ⟨fun hnot => absurd List.mem_cons_self hnot, fun _ => hfired⟩
      · have hp' : c₁.left p = some (k, a) := by rw [hleft, Function.update_of_ne hpq, hp]
        simpa [ticks, hpq] using ih hp'
    | @tick _ fired₀ hnd hmem hfresh hleft =>
      rw [ticks_tick]
      cases k with
      | zero =>
        -- fired now: from here on the id is gone
        have hp' : c₁.left p = none := by rw [hleft, hp]; rfl
        obtain ⟨hfired, hstop⟩ := gone htrace hp' (by omega)
        refine ⟨?_, fun hmem' => absurd (by simpa using hmem') hstop⟩
        intro _ i fired hi
        cases i with
        | zero =>
          obtain rfl : fired₀ = fired := by simpa using hi
          rw [if_pos rfl]
          exact hits_eq_singleton hnd ((hmem p a).mpr hp)
        | succ i =>
          rw [List.getElem?_cons_succ] at hi
          rw [if_neg (Nat.succ_ne_zero i)]
          exact hfired fired (List.mem_of_getElem? hi)
      | succ k =>
        have hp' : c₁.left p = some (k, a) := by rw [hleft, hp]; rfl
        have hnot : hits p fired₀ = [] := hits_eq_nil fun b hb => by
          have hzero := (hmem p b).mp hb
          rw [hp] at hzero
          simp at hzero
        obtain ⟨hfires, hnever⟩ := ih hp'
        constructor
        · intro hstop i fired hi
          cases i with
          | zero =>
            obtain rfl : fired₀ = fired := by simpa using hi
            rw [if_neg (Nat.succ_ne_zero k).symm, hnot]
          | succ i =>
            rw [List.getElem?_cons_succ] at hi
            rw [hfires (by simpa using hstop) i fired hi]
            simp only [Nat.succ_inj]
        · intro hstop
          rw [List.forall_mem_cons]
          exact ⟨hnot, hnever (by simpa using hstop)⟩
    | skip _ hleft =>
      have hp' : c₁.left p = some (k, a) := by rw [hleft, hp]
      simpa [ticks] using ih hp'

/-! ### What is running -/

/-- The id was started, and neither stopped nor fired. -/
structure Running (es : List (Event A)) (p : ℕ) : Prop where
  started : ∃ k a, .start p k a ∈ es
  not_stopped : .stop p ∉ es
  not_fired : ∀ fired ∈ ticks es, p ∉ fired.map Prod.fst

/-- The event is about the id. -/
def Mentions (p : ℕ) : Event A → Prop
  | .start q _ _ => q = p
  | .stop q => q = p
  | .tick fired => p ∈ fired.map Prod.fst
  | .skip => False

/-- What is running after the events, and which ids they are about. -/
structure Recorded (c : Countdown A) (es : List (Event A)) : Prop where
  running : ∀ p, c.left p ≠ none ↔ Running es p
  lt_fresh : ∀ p, ∀ e ∈ es, Mentions p e → p < c.fresh

lemma mem_ticks : fired ∈ ticks es ↔ .tick fired ∈ es := by
  rw [ticks, List.mem_filterMap]
  constructor
  · rintro ⟨e, he, heq⟩
    cases e <;> cases heq
    exact he
  · exact fun he => ⟨_, he, rfl⟩

/-- One more event, which may start the id, and may be the end of it. -/
lemma running_append_iff : Running (es ++ [e]) p ↔
    (Running es p ∨ (∃ k a, e = .start p k a) ∧ .stop p ∉ es ∧ ∀ fired ∈ ticks es, p ∉ fired.map Prod.fst) ∧
      e ≠ .stop p ∧ ∀ fired, e = .tick fired → p ∉ fired.map Prod.fst := by
  constructor
  · rintro ⟨⟨k, a, hmem⟩, hstop, hfired⟩
    have hstop' : Event.stop p ∉ es ∧ e ≠ .stop p := by simpa [eq_comm] using hstop
    have hfired' : ∀ fired ∈ ticks es, p ∉ fired.map Prod.fst := fun fired hf =>
      hfired fired (mem_ticks.mpr (List.mem_append_left _ (mem_ticks.mp hf)))
    refine ⟨?_, hstop'.2, fun fired he => hfired fired (mem_ticks.mpr (by simp [he]))⟩
    rcases List.mem_append.mp hmem with hold | hnew
    · exact .inl ⟨⟨k, a, hold⟩, hstop'.1, hfired'⟩
    · exact .inr ⟨⟨k, a, (List.mem_singleton.mp hnew).symm⟩, hstop'.1, hfired'⟩
  · rintro ⟨hold, hstop, hfired⟩
    have hkeep : Event.stop p ∉ es ∧ ∀ fired ∈ ticks es, p ∉ fired.map Prod.fst := by
      rcases hold with hrun | ⟨-, hkeep⟩
      · exact ⟨hrun.not_stopped, hrun.not_fired⟩
      · exact hkeep
    refine ⟨?_, by simpa [eq_comm] using ⟨hkeep.1, hstop⟩, fun fired hf => ?_⟩
    · rcases hold with ⟨⟨k, a, hmem⟩, -, -⟩ | ⟨⟨k, a, rfl⟩, -⟩
      · exact ⟨k, a, List.mem_append_left _ hmem⟩
      · exact ⟨k, a, by simp⟩
    · rcases List.mem_append.mp (mem_ticks.mp hf) with hin | hnew
      · exact hkeep.2 fired (mem_ticks.mpr hin)
      · exact hfired fired (List.mem_singleton.mp hnew).symm

lemma Recorded.not_mentioned (h : c.Recorded es) (hp : c.fresh ≤ p) :
    .stop p ∉ es ∧ ∀ fired ∈ ticks es, p ∉ fired.map Prod.fst :=
  ⟨fun hmem => absurd (h.lt_fresh p _ hmem rfl) (not_lt.mpr hp),
    fun _ hf hmem => absurd (h.lt_fresh p _ (mem_ticks.mp hf) hmem) (not_lt.mpr hp)⟩

lemma Recorded.append (h : c.Recorded es) (hle : c.fresh ≤ c'.fresh)
    (hrunning : ∀ p, c'.left p ≠ none ↔ Running (es ++ [e]) p) (he : ∀ p, Mentions p e → p < c'.fresh) :
    c'.Recorded (es ++ [e]) := by
  refine ⟨hrunning, fun p x hx hmention => ?_⟩
  rcases List.mem_append.mp hx with hold | hnew
  · exact (h.lt_fresh p x hold hmention).trans_le hle
  · exact he p (List.mem_singleton.mp hnew ▸ hmention)

lemma Step.recorded (hs : Step c e c') (h : c.Recorded es) : c'.Recorded (es ++ [e]) := by
  refine h.append hs.fresh_le (fun p => ?_) fun p hmention => ?_
  · rw [running_append_iff, ← h.running p]
    cases hs with
    | start k a _ hleft =>
      rw [hleft]
      by_cases hp : p = c.fresh
      · subst hp
        simpa using Or.inr (h.not_mentioned le_rfl)
      · simp [hp, Ne.symm hp]
    | stop q _ _ hleft =>
      rw [hleft]
      by_cases hp : p = q
      · simp [hp]
      · simp [hp, Ne.symm hp]
    | @tick _ fired _ hmem _ hleft =>
      have hzero : p ∈ fired.map Prod.fst ↔ ∃ a, c.left p = some (0, a) := by
        rw [List.mem_map]
        constructor
        · rintro ⟨⟨q, a⟩, hf, rfl⟩
          exact ⟨a, (hmem q a).mp hf⟩
        · rintro ⟨a, ha⟩
          exact ⟨(p, a), (hmem p a).mpr ha, rfl⟩
      have hiff : c'.left p ≠ none ↔ c.left p ≠ none ∧ p ∉ fired.map Prod.fst := by
        rw [hleft, hzero]
        match c.left p with
        | none => simp
        | some (0, a) => simp [dec]
        | some (k + 1, a) => simp [dec]
      rw [hiff]
      simp
    | skip _ hleft =>
      rw [hleft]
      simp
  · cases hs with
    | start k a hfresh =>
      obtain rfl : c.fresh = p := hmention
      omega
    | stop q hq hfresh =>
      obtain rfl : q = p := hmention
      rw [hfresh]
      exact Countdown.lt_fresh hq
    | tick _ hmem hfresh =>
      obtain ⟨⟨q, a⟩, hf, rfl⟩ := List.mem_map.mp hmention
      rw [hfresh]
      exact Countdown.lt_fresh ((hmem q a).mp hf)
    | skip => exact hmention.elim

/-- In a trace that begins with nothing running, an id is running if and only if it was started, and
neither stopped nor fired. -/
theorem left_iff_running {c₀ : Countdown A} (hempty : ∀ p, c₀.left p = none) (h : Trace Step c₀ es c) :
    c.left p ≠ none ↔ Running es p := by
  have hrec : c.Recorded ([] ++ es) := by
    refine h.history (I := Recorded) (fun _ _ _ _ hr hs => hs.recorded hr) ⟨fun p => ?_, by simp⟩
    refine iff_of_false (not_not.mpr (hempty p)) fun hrun => ?_
    obtain ⟨k, a, hmem⟩ := hrun.started
    cases hmem
  exact hrec.running p

end Countdown

end Core
