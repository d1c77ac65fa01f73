import LinuxServer.Core.Countdown
import LinuxServer.Core.DeadlineQueue

/-!
# Countdowns and deadlines

The two ways to say when an id is due: the ticks that it has left, and the time of its deadline. They
agree at the time `clock` when who has `k` ticks left has the deadline `clock + 1 + k`; what is done to
both alike keeps them in agreement, and a tick fires what is due.

`act p` is what is done when `p` is due.
-/

namespace Core

variable {A : Type*}

structure Synchronous (c : Countdown A) (q : DeadlineQueue ℤ) (clock : ℤ) (act : ℕ → Option A) : Prop where
  left : ∀ p k a, c.left p = some (k, a) ↔ q.Until p (clock + 1 + k) ∧ act p = some a
  later : ∀ p e, q.Until p e → clock + 1 ≤ e

/-- Who was set later has the greater id: ids are given in order, and nobody is set again. -/
def DeadlineQueue.Aged {T : Type*} (q : DeadlineQueue T) : Prop :=
  ∀ p r k k', q.key p = some k → q.key r = some k' → k.2 < k'.2 → p < r

namespace DeadlineQueue.Aged

variable {T : Type*} {q : DeadlineQueue T} {p r : ℕ} {e : T} {gone : List ℕ}

lemma put (h : q.Aged) (hp : ∀ r, q.Waits r → r < p) : (q.put p e).Aged := by
  intro r r' k k' hk hk' hlt
  by_cases hr' : r' = p
  · subst hr'
    by_cases hr : r = r'
    · subst hr
      obtain rfl := Option.some_inj.mp (hk.symm.trans hk')
      exact absurd hlt (lt_irrefl _)
    · rw [put_key_of_ne hr] at hk
      exact hp r ⟨k, hk⟩
  · rw [put_key_of_ne hr'] at hk'
    by_cases hr : r = p
    · subst hr
      obtain rfl : (e, q.stamp) = k := by simpa [DeadlineQueue.put] using hk
      exact absurd (q.stamp_lt r' k' hk') (not_lt.mpr hlt.le)
    · rw [put_key_of_ne hr] at hk
      exact h r r' k k' hk hk' hlt

lemma remove (h : q.Aged) : (q.remove gone).Aged := fun p r k k' hk hk' =>
  h p r k k' (Option.ite_none_left_eq_some.mp hk).2 (Option.ite_none_left_eq_some.mp hk').2

/-- Those who wait for the same time come in the order of their ids. -/
lemma lt_of_before [LinearOrder T] (h : q.Aged) (hb : q.Before p r) (hp : q.Until p e) (hr : q.Until r e) : p < r := by
  obtain ⟨k, k', hk, hk', hlt⟩ := hb
  obtain ⟨n, hn⟩ := hp
  obtain ⟨n', hn'⟩ := hr
  obtain rfl := Option.some_inj.mp (hk.symm.trans hn)
  obtain rfl := Option.some_inj.mp (hk'.symm.trans hn')
  refine h p r _ _ hn hn' ?_
  rcases Prod.Lex.toLex_lt_toLex.mp hlt with hlt | hlt
  · exact absurd hlt (lt_irrefl _)
  · exact hlt.2

end DeadlineQueue.Aged

namespace Synchronous

variable {c c' : Countdown A} {q : DeadlineQueue ℤ} {clock : ℤ} {act act' : ℕ → Option A} {p k : ℕ} {a : A}
  {gone : List ℕ} {fired : List (ℕ × A)}

lemma start (h : Synchronous c q clock act) (hs : c.Step (.start p k a) c') (hp : act' p = some a)
    (hact : ∀ r, r ≠ p → act' r = act r) : Synchronous c' (q.put p (clock + 1 + k)) clock act' := by
  cases hs with
  | start _ _ _ hleft =>
    constructor
    · intro r j b
      rw [hleft]
      by_cases hr : r = c.fresh
      · subst hr
        rw [Function.update_self, hp, Option.some_inj, Option.some_inj, Prod.mk.injEq]
        refine and_congr_left fun _ => ⟨?_, fun hu => ?_⟩
        · rintro rfl
          exact DeadlineQueue.put_self
        · have heq := hu.unique DeadlineQueue.put_self
          omega
      · rw [Function.update_of_ne hr, hact r hr, DeadlineQueue.put_until_of_ne hr]
        exact h.left r j b
    · intro r e he
      by_cases hr : r = c.fresh
      · subst hr
        have heq := he.unique DeadlineQueue.put_self
        omega
      · exact h.later r e ((DeadlineQueue.put_until_of_ne hr).mp he)

lemma stop (h : Synchronous c q clock act) (hs : c.Step (.stop p) c')
    (hact : ∀ r, r ≠ p → act' r = act r) : Synchronous c' (q.remove [p]) clock act' := by
  cases hs with
  | stop _ _ _ hleft =>
    refine ⟨fun r j b => ?_, fun r e he => h.later r e (DeadlineQueue.until_remove.mp he).2⟩
    rw [hleft, DeadlineQueue.until_remove, List.mem_singleton]
    by_cases hr : r = p
    · simp [hr]
    · rw [Function.update_of_ne hr, hact r hr, h.left]
      simp [hr]

/-- A tick fires what is due, and the others are one tick nearer to a deadline that is one nearer. -/
lemma tick (h : Synchronous c q clock act) (hs : c.Step (.tick fired) c')
    (hgone : ∀ p, p ∈ gone ↔ q.Due (clock + 1) p) (hact : ∀ r, r ∉ gone → act' r = act r) :
    Synchronous c' (q.remove gone) (clock + 1) act' ∧
      ∀ p a, (p, a) ∈ fired ↔ p ∈ gone ∧ act p = some a := by
  have hdue : ∀ p, p ∈ gone ↔ q.Until p (clock + 1) := by
    intro p
    rw [hgone]
    refine ⟨fun ⟨e, he, hle⟩ => ?_, fun hu => ⟨_, hu, le_rfl⟩⟩
    obtain rfl : e = clock + 1 := le_antisymm hle (h.later p e he)
    exact he
  cases hs with
  | tick _ hmem _ hleft =>
    refine ⟨⟨fun r j b => ?_, fun r e he => ?_⟩, fun p a => ?_⟩
    · have hnext : c'.left r = some (j, b) ↔ c.left r = some (j + 1, b) := by
        rw [hleft]
        match c.left r with
        | none => simp
        | some (0, _) => simp [Countdown.dec]
        | some (k + 1, _) => simp [Countdown.dec]
      have htime : clock + 1 + ((j + 1 : ℕ) : ℤ) = clock + 1 + 1 + j := by
        push_cast
        ring
      rw [hnext, h.left, htime, DeadlineQueue.until_remove]
      by_cases hr : r ∈ gone
      · have hnot : ¬ q.Until r (clock + 1 + 1 + j) := fun hu => by
          have heq := hu.unique ((hdue r).mp hr)
          omega
        simp [hr, hnot]
      · rw [hact r hr]
        simp [hr]
    · obtain ⟨hr, he⟩ := DeadlineQueue.until_remove.mp he
      refine lt_of_le_of_ne (h.later r e he) fun heq => hr ((hdue r).mpr (heq ▸ he))
    · rw [hmem, h.left, hdue, Nat.cast_zero, add_zero]

end Synchronous

end Core
