import Mathlib

/-!
# Deadline queues

What a list of timers is for: each waiting id has a deadline, and an id set later than another
one with the same deadline comes after it. The queue knows who waits and in which order, and says
nothing about how the ids are stored; `Lists q ts` is the contract a stored list meets.
-/

namespace Core

/-- Each waiting id with its deadline and the number of the setting that gave it. -/
@[ext]
structure DeadlineQueue (T : Type*) where
  key : ℕ → Option (T × ℕ)
  stamp : ℕ
  stamp_lt : ∀ p k, key p = some k → k.2 < stamp
  stamp_inj : ∀ p r k k', key p = some k → key r = some k' → k.2 = k'.2 → p = r

namespace DeadlineQueue

variable {T : Type*}

/-- Nobody waits. -/
def empty : DeadlineQueue T := ⟨fun _ => none, 0, by simp, by simp⟩

/-- Set the deadline of `p`, whether it waits already or not. -/
def put (q : DeadlineQueue T) (p : ℕ) (e : T) : DeadlineQueue T where
  key := Function.update q.key p (some (e, q.stamp))
  stamp := q.stamp + 1
  stamp_lt r k h := by
    by_cases hr : r = p
    · subst hr
      obtain rfl : (e, q.stamp) = k := by simpa using h
      exact Nat.lt_succ_self _
    · rw [Function.update_of_ne hr] at h
      exact Nat.lt_succ_of_lt (q.stamp_lt r k h)
  stamp_inj r r' k k' h h' heq := by
    by_cases hr : r = p <;> by_cases hr' : r' = p
    · rw [hr, hr']
    · subst hr
      obtain rfl : (e, q.stamp) = k := by simpa using h
      rw [Function.update_of_ne hr'] at h'
      exact absurd heq (q.stamp_lt r' k' h').ne'
    · subst hr'
      obtain rfl : (e, q.stamp) = k' := by simpa using h'
      rw [Function.update_of_ne hr] at h
      exact absurd heq (q.stamp_lt r k h).ne
    · rw [Function.update_of_ne hr] at h
      rw [Function.update_of_ne hr'] at h'
      exact q.stamp_inj r r' k k' h h' heq

/-- The ids of `gone` no longer wait. -/
def remove (q : DeadlineQueue T) (gone : List ℕ) : DeadlineQueue T where
  key p := if p ∈ gone then none else q.key p
  stamp := q.stamp
  stamp_lt p k h := q.stamp_lt p k (Option.ite_none_left_eq_some.mp h).2
  stamp_inj p r k k' h h' := q.stamp_inj p r k k' (Option.ite_none_left_eq_some.mp h).2
    (Option.ite_none_left_eq_some.mp h').2

def Waits (q : DeadlineQueue T) (p : ℕ) : Prop := ∃ k, q.key p = some k

/-- `p` waits until `e`. -/
def Until (q : DeadlineQueue T) (p : ℕ) (e : T) : Prop := ∃ n, q.key p = some (e, n)

variable {q : DeadlineQueue T} {p r : ℕ} {e cur : T} {ts l₁ l₂ : List ℕ}

lemma Until.waits (h : q.Until p e) : q.Waits p := by
  obtain ⟨n, hn⟩ := h
  exact ⟨_, hn⟩

lemma Waits.until (h : q.Waits p) : ∃ e, q.Until p e := by
  obtain ⟨⟨e, n⟩, hk⟩ := h
  exact ⟨e, n, hk⟩

lemma Until.unique {e' : T} (h : q.Until p e) (h' : q.Until p e') : e = e' := by
  obtain ⟨n, hn⟩ := h
  obtain ⟨n', hn'⟩ := h'
  simpa using (congrArg (Option.map Prod.fst) (hn.symm.trans hn'))

lemma put_self : (q.put p e).Until p e := ⟨q.stamp, by simp [put]⟩

lemma put_key_of_ne (h : r ≠ p) : (q.put p e).key r = q.key r := by simp [put, h]

lemma put_until_of_ne {e' : T} (h : r ≠ p) : (q.put p e).Until r e' ↔ q.Until r e' := by
  simp [Until, put_key_of_ne h]

lemma waits_put : (q.put p e).Waits r ↔ r = p ∨ q.Waits r := by
  by_cases hr : r = p
  · subst hr
    exact ⟨fun _ => Or.inl rfl, fun _ => put_self.waits⟩
  · simp [Waits, put_key_of_ne hr, hr]

variable {gone : List ℕ}

lemma remove_key_of_notMem (h : p ∉ gone) : (q.remove gone).key p = q.key p := if_neg h

lemma waits_remove : (q.remove gone).Waits p ↔ p ∉ gone ∧ q.Waits p := by
  by_cases hp : p ∈ gone <;> simp [Waits, remove, hp]

lemma until_remove : (q.remove gone).Until p e ↔ p ∉ gone ∧ q.Until p e := by
  by_cases hp : p ∈ gone <;> simp [Until, remove, hp]

lemma remove_put : (q.remove [p]).put p e = q.put p e := by
  ext r : 2
  · by_cases hr : r = p
    · subst hr
      simp [put, remove]
    · rw [put_key_of_ne hr, put_key_of_ne hr, remove_key_of_notMem (by simpa using hr)]
  · rfl

variable [LinearOrder T]

/-- The deadline of `p` is reached at `cur`. -/
def Due (q : DeadlineQueue T) (cur : T) (p : ℕ) : Prop := ∃ e, q.Until p e ∧ e ≤ cur

/-- `p` comes before `r`: by deadline, then by the order of their last settings. -/
def Before (q : DeadlineQueue T) (p r : ℕ) : Prop :=
  ∃ k k', q.key p = some k ∧ q.key r = some k' ∧ toLex k < toLex k'

/-- `ts` is everyone who waits, once each and in order. -/
structure Lists (q : DeadlineQueue T) (ts : List ℕ) : Prop where
  mem : ∀ p, p ∈ ts ↔ q.Waits p
  pairwise : ts.Pairwise q.Before

lemma Due.waits (h : q.Due cur p) : q.Waits p := by
  obtain ⟨e, he, -⟩ := h
  exact he.waits

lemma Before.asymm (h : q.Before p r) : ¬ q.Before r p := by
  rintro ⟨j, j', hj, hj', hlt'⟩
  obtain ⟨k, k', hk, hk', hlt⟩ := h
  obtain rfl : j = k' := by simpa using hj.symm.trans hk'
  obtain rfl : j' = k := by simpa using hj'.symm.trans hk
  exact lt_asymm hlt hlt'

lemma Before.le {e' : T} (h : q.Before p r) (he : q.Until p e) (he' : q.Until r e') : e ≤ e' := by
  obtain ⟨k, k', hk, hk', hlt⟩ := h
  obtain ⟨n, hn⟩ := he
  obtain ⟨n', hn'⟩ := he'
  obtain rfl : k = (e, n) := by simpa using hk.symm.trans hn
  obtain rfl : k' = (e', n') := by simpa using hk'.symm.trans hn'
  rcases Prod.Lex.toLex_lt_toLex.mp hlt with h | h
  · exact h.le
  · exact h.1.le

/-! ### The list of those who wait -/

lemma Lists.nodup (h : q.Lists ts) : ts.Nodup :=
  h.pairwise.imp fun hb heq => by
    subst heq
    exact hb.asymm hb

lemma Lists.of_empty : (empty : DeadlineQueue T).Lists [] :=
  ⟨fun p => by simp [Waits, empty], List.Pairwise.nil⟩

/-- Deadlines do not decrease along the list. -/
lemma Lists.le_of_append (h : q.Lists (l₁ ++ l₂)) {e e' : T} (hp : p ∈ l₁) (hr : r ∈ l₂)
    (he : q.Until p e) (he' : q.Until r e') : e ≤ e' :=
  ((List.pairwise_append.mp h.pairwise).2.2 p hp r hr).le he he'

lemma Lists.waits_left (h : q.Lists (l₁ ++ l₂)) (hp : p ∈ l₁) : q.Waits p :=
  (h.mem p).mp (List.mem_append_left _ hp)

lemma Lists.waits_right (h : q.Lists (l₁ ++ l₂)) (hp : p ∈ l₂) : q.Waits p :=
  (h.mem p).mp (List.mem_append_right _ hp)

/-! ### Setting a deadline -/

lemma Before.put {r' : ℕ} (h : q.Before r r') (hr : r ≠ p) (hr' : r' ≠ p) :
    (q.put p e).Before r r' := by
  obtain ⟨k, k', hk, hk', hlt⟩ := h
  exact ⟨k, k', by rw [put_key_of_ne hr, hk], by rw [put_key_of_ne hr', hk'], hlt⟩

/-- The newest setting comes after those with a deadline that is not later. -/
lemma before_put {e' : T} (hr : r ≠ p) (h : q.Until r e') (hle : e' ≤ e) :
    (q.put p e).Before r p := by
  obtain ⟨n, hn⟩ := h
  refine ⟨(e', n), (e, q.stamp), by rw [put_key_of_ne hr, hn], by simp [DeadlineQueue.put],
    Prod.Lex.toLex_lt_toLex.mpr ?_⟩
  rcases hle.lt_or_eq with hlt | heq
  · exact Or.inl hlt
  · exact Or.inr ⟨heq, q.stamp_lt r _ hn⟩

lemma put_before {e' : T} (hr : r ≠ p) (h : q.Until r e') (hlt : e < e') :
    (q.put p e).Before p r := by
  obtain ⟨n, hn⟩ := h
  exact ⟨(e, q.stamp), (e', n), by simp [DeadlineQueue.put], by rw [put_key_of_ne hr, hn],
    Prod.Lex.toLex_lt_toLex.mpr (Or.inl hlt)⟩

/-- Where a new id goes: behind every deadline that is not later than its own. -/
theorem Lists.put (h : q.Lists (l₁ ++ l₂)) (hp : p ∉ l₁ ++ l₂)
    (h₁ : ∀ r ∈ l₁, ∀ e', q.Until r e' → e' ≤ e) (h₂ : ∀ r ∈ l₂, ∀ e', q.Until r e' → e < e') :
    (q.put p e).Lists (l₁ ++ p :: l₂) := by
  obtain ⟨hpw₁, hpw₂, hpw⟩ := List.pairwise_append.mp h.pairwise
  have hne₁ : ∀ r ∈ l₁, r ≠ p := fun r hr heq => hp (heq ▸ List.mem_append_left _ hr)
  have hne₂ : ∀ r ∈ l₂, r ≠ p := fun r hr heq => hp (heq ▸ List.mem_append_right _ hr)
  have hbefore : ∀ r ∈ l₁, (q.put p e).Before r p := by
    intro r hr
    obtain ⟨e', he'⟩ := (h.waits_left hr).until
    exact before_put (hne₁ r hr) he' (h₁ r hr e' he')
  have hafter : ∀ r ∈ l₂, (q.put p e).Before p r := by
    intro r hr
    obtain ⟨e', he'⟩ := (h.waits_right hr).until
    exact put_before (hne₂ r hr) he' (h₂ r hr e' he')
  refine ⟨?_, List.pairwise_append.mpr ⟨?_, List.pairwise_cons.mpr ⟨hafter, ?_⟩, ?_⟩⟩
  · intro r
    rw [waits_put, ← h.mem]
    simp only [List.mem_append, List.mem_cons]
    tauto
  · exact hpw₁.imp_of_mem fun hr hr' hb => hb.put (hne₁ _ hr) (hne₁ _ hr')
  · exact hpw₂.imp_of_mem fun hr hr' hb => hb.put (hne₂ _ hr) (hne₂ _ hr')
  · intro r hr r' hr'
    rcases List.mem_cons.mp hr' with rfl | hr'
    · exact hbefore r hr
    · exact (hpw r hr r' hr').put (hne₁ r hr) (hne₂ r' hr')

/-! ### Leaving the queue -/

lemma Before.remove (h : q.Before p r) (hp : p ∉ gone) (hr : r ∉ gone) :
    (q.remove gone).Before p r := by
  obtain ⟨k, k', hk, hk', hlt⟩ := h
  exact ⟨k, k', by rw [remove_key_of_notMem hp, hk], by rw [remove_key_of_notMem hr, hk'], hlt⟩

/-- Those who stay keep their order. -/
theorem Lists.remove (gone : List ℕ) (h : q.Lists ts) :
    (q.remove gone).Lists (ts.filter fun p => p ∉ gone) := by
  constructor
  · intro p
    rw [waits_remove, ← h.mem, List.mem_filter, decide_eq_true_iff, and_comm]
  · apply (h.pairwise.sublist List.filter_sublist).imp_of_mem
    intro p r hp hr hb
    simp only [List.mem_filter, decide_eq_true_iff] at hp hr
    exact hb.remove hp.2 hr.2

lemma Lists.remove_one (h : q.Lists (l₁ ++ p :: l₂)) : (q.remove [p]).Lists (l₁ ++ l₂) := by
  have hp : p ∉ l₁ ++ l₂ := (List.nodup_cons.mp (List.nodup_middle.mp h.nodup)).1
  have hstay : ∀ r ∈ l₁ ++ l₂, decide (r ∉ [p]) = true := by
    intro r hr
    have hne : r ≠ p := fun heq => hp (heq ▸ hr)
    simp [hne]
  have hfilter := h.remove [p]
  rw [List.filter_append, List.filter_cons_of_neg (by simp), ← List.filter_append,
    List.filter_eq_self.mpr hstay] at hfilter
  exact hfilter

lemma Lists.remove_front (h : q.Lists (l₁ ++ l₂)) : (q.remove l₁).Lists l₂ := by
  have hdisj := (List.nodup_append.mp h.nodup).2.2
  have hstay : ∀ r ∈ l₂, decide (r ∉ l₁) = true := fun r hr =>
    decide_eq_true fun hmem => hdisj r hmem r hr rfl
  have hgone : ∀ r ∈ l₁, ¬ decide (r ∉ l₁) = true := fun r hr => by simpa using hr
  have hfilter := h.remove l₁
  rwa [List.filter_append, List.filter_eq_nil_iff.mpr hgone, List.nil_append,
    List.filter_eq_self.mpr hstay] at hfilter

end DeadlineQueue

end Core
