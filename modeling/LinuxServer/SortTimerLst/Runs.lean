import LinuxServer.Core.DeadlineQueue
import LinuxServer.SortTimerLst.Properties

/-!
# Runs of the sorted timer list

A run is any sequence of the four operations from the empty list, together with its history: what
the callers set, what they deleted and what was called. The history is a record of the interface
alone; that the pointers agree with it is `Refines`, which every operation keeps.
-/

namespace LinuxServer.SortTimerLst

open Core Core.Dll

variable {D A : Type*}

/-- One call of a callback: at which clock reading, of which timer, and what it did. -/
structure Call (A : Type*) where
  time : ℤ
  timer : ℕ
  act : A

/-- The timers added and not yet deleted or fired, with the `expire` of their last `add_timer` or
`adjust_timer`; that `expire` for every timer there ever was; and the calls so far. -/
structure History (A : Type*) where
  queue : DeadlineQueue ℤ
  lastSet : ℕ → Option ℤ
  fired : List (Call A)

namespace History

def init : History A := ⟨.empty, fun _ => none, []⟩

def set (h : History A) (p : ℕ) (e : ℤ) : History A :=
  { h with queue := h.queue.put p e, lastSet := Function.update h.lastSet p (some e) }

def del (h : History A) (p : ℕ) : History A := { h with queue := h.queue.remove [p] }

def tick (h : History A) (cur : ℤ) (calls : List (ℕ × A)) : History A :=
  { h with
    queue := h.queue.remove (calls.map Prod.fst)
    fired := h.fired ++ calls.map fun c => ⟨cur, c.1, c.2⟩ }

end History

/-- The runs: `add_timer` of a fresh timer, `adjust_timer` of a timer in the list whose `expire`
was not decreased, `del_timer` of a timer in the list, and `tick` at any time. -/
inductive Run : SortTimerLst D A → History A → Prop
  | init : Run init .init
  | add {l l₁ l' h p} (e : ℤ) (cbFunc : D → A) (userData : D) : Run l h →
      l.newTimer e cbFunc userData = (l₁, p) → l₁.addTimer (some p) = some l' → Run l' (h.set p e)
  | adjust {l l₁ l' h} (p : ℕ) (e₀ e : ℤ) : Run l h → h.queue.Until p e₀ → e₀ ≤ e →
      l.setExpire (some p) e = some l₁ → l₁.adjustTimer (some p) = some l' → Run l' (h.set p e)
  | del {l l' h} (p : ℕ) : Run l h → h.queue.Waits p → l.delTimer (some p) = some l' →
      Run l' (h.del p)
  | tick {l l' h calls} (cur : ℤ) : Run l h → l.tick cur = some (l', calls) →
      Run l' (h.tick cur calls)

/-- The pointers of `l` are the waiting timers of `h` in order, and the calls were right so far. -/
structure Refines (l : SortTimerLst D A) (h : History A) (ts : List ℕ) : Prop where
  holds : l.Holds ts
  lists : h.queue.Lists ts
  expire : ∀ p e, h.queue.Until p e → l.expire p = some e
  lastSet : ∀ p e, h.queue.Until p e → h.lastSet p = some e
  lt_fresh : ∀ c ∈ h.fired, c.timer < l.store.fresh
  gone : ∀ c ∈ h.fired, ¬ h.queue.Waits c.timer
  nodup : (h.fired.map Call.timer).Nodup
  onTime : ∀ c ∈ h.fired, ∃ e, h.lastSet c.timer = some e ∧ e ≤ c.time

variable {l l' l₁ : SortTimerLst D A} {h : History A} {p : ℕ} {e cur : ℤ} {ts : List ℕ}

lemma Refines.init : Refines (init : SortTimerLst D A) .init [] where
  holds := ⟨rfl, by simp⟩
  lists := DeadlineQueue.Lists.of_empty
  expire := by rintro p e ⟨n, hn⟩; cases hn
  lastSet := by rintro p e ⟨n, hn⟩; cases hn
  lt_fresh := by simp [History.init]
  gone := by simp [History.init]
  nodup := List.nodup_nil
  onTime := by simp [History.init]

lemma lt_fresh_of_expire (h : l.expire p = some e) : p < l.store.fresh := by
  obtain ⟨t, ht, -⟩ := cell_of_expire h
  exact l.store.lt_fresh p ht

lemma Refines.lt_fresh_of_waits (r : l.Refines h ts) (hp : h.queue.Waits p) :
    p < l.store.fresh := by
  obtain ⟨e, he⟩ := hp.until
  exact lt_fresh_of_expire (r.expire p e he)

/-- A timer that was not in the list, or was taken out of it, is put where its deadline says. -/
lemma Refines.set {q : DeadlineQueue ℤ} {r₁ r₂ : List ℕ} (r : l.Refines h ts)
    (hq : q.Lists (r₁ ++ r₂)) (hput : q.put p e = h.queue.put p e) (hp : p ∉ r₁ ++ r₂)
    (hsub : ∀ r e', q.Until r e' → h.queue.Until r e')
    (hold : ∀ c ∈ h.fired, c.timer ≠ p)
    (hexp : ∀ r, r ≠ p → l₁.expire r = l.expire r) (hexp' : l₁.expire p = some e)
    (hfresh : l.store.fresh ≤ l₁.store.fresh) (hins : l₁.Inserted l' p e r₁ r₂) :
    l'.Refines (h.set p e) (r₁ ++ p :: r₂) := by
  have hne : ∀ r ∈ r₁ ++ r₂, r ≠ p := fun r hr heq => hp (heq ▸ hr)
  have huntil : ∀ r ∈ r₁ ++ r₂, ∀ e', q.Until r e' → l₁.expire r = some e' := fun x hx e' he' =>
    (hexp x (hne x hx)).trans (r.expire x e' (hsub x e' he'))
  have hpay : ∀ x, l'.expire x = l₁.expire x := fun x => expire_congr (congrFun hins.data x)
  have hafter : ∀ r ∈ r₂, ∀ e', q.Until r e' → e < e' := by
    intro r hr e' he'
    cases hr₂ : r₂ with
    | nil => simp [hr₂] at hr
    | cons y ys =>
      subst hr₂
      obtain ⟨e'', he''⟩ := (hq.waits_right (p := y) (by simp)).until
      have hlt := hins.after y rfl e'' (huntil y (by simp) e'' he'')
      rcases List.mem_cons.mp hr with rfl | hr
      · exact he'.unique he'' ▸ hlt
      · have hq' : q.Lists ((r₁ ++ [y]) ++ ys) := by simpa using hq
        exact lt_of_lt_of_le hlt (hq'.le_of_append (by simp) hr he'' he')
  have hlists := hq.put (e := e) hp
    (fun r hr e' he' => hins.before r hr e' (huntil r (List.mem_append_left _ hr) e' he')) hafter
  refine ⟨hins.holds, (show (h.queue.put p e).Lists _ from hput ▸ hlists), ?_, ?_, ?_, ?_, r.nodup, ?_⟩
  · intro r' e' he'
    rw [hpay]
    by_cases hr : r' = p
    · subst hr
      rw [hexp', he'.unique DeadlineQueue.put_self]
    · rw [hexp r' hr]
      exact r.expire r' e' ((DeadlineQueue.put_until_of_ne hr).mp he')
  · intro r' e' he'
    by_cases hr : r' = p
    · subst hr
      rw [he'.unique DeadlineQueue.put_self]
      simp [History.set]
    · simp only [History.set, Function.update_of_ne hr]
      exact r.lastSet r' e' ((DeadlineQueue.put_until_of_ne hr).mp he')
  · intro c hc
    rw [hins.fresh]
    exact lt_of_lt_of_le (r.lt_fresh c hc) hfresh
  · intro c hc hw
    rcases DeadlineQueue.waits_put.mp hw with heq | hw
    · exact hold c hc heq
    · exact r.gone c hc hw
  · intro c hc
    simp only [History.set, Function.update_of_ne (hold c hc)]
    exact r.onTime c hc

/-! ### Each operation keeps the refinement -/

lemma Refines.add (r : l.Refines h ts) (e : ℤ) (cbFunc : D → A) (userData : D) :
    ∃ l' ts', (l.newTimer e cbFunc userData).1.addTimer (some l.store.fresh) = some l' ∧
      l'.Refines (h.set l.store.fresh e) ts' ∧ l'.Carries l.store.fresh cbFunc userData ∧
      ∀ q f d, l.Carries q f d → l'.Carries q f d := by
  have hnew : ∀ q, q ≠ l.store.fresh →
      (l.newTimer e cbFunc userData).1.store.links q = l.store.links q ∧
        (l.newTimer e cbFunc userData).1.store.data q = l.store.data q := by
    intro q hq
    simp [newTimer, Store.links, Store.data, Store.view, hq]
  have hcell : (l.newTimer e cbFunc userData).1.store.cell l.store.fresh =
      some ⟨⟨none, none⟩, e, cbFunc, userData⟩ := by simp [newTimer]
  have hp : l.store.fresh ∉ ts := fun hmem =>
    absurd (r.lt_fresh_of_waits ((r.lists.mem _).mp hmem)) (lt_irrefl _)
  have hholds : (l.newTimer e cbFunc userData).1.Holds ts :=
    ⟨r.holds.isList.congr fun q hq => (hnew q fun heq => hp (heq ▸ hq)).1, r.holds.tail⟩
  obtain ⟨l', r₁, r₂, hl', rfl, hins⟩ := addTimer_spec hholds hcell rfl hp
  refine ⟨l', r₁ ++ l.store.fresh :: r₂, hl', r.set r.lists rfl hp (fun _ _ he => he) ?_ ?_
    (expire_of_cell hcell) (Nat.le_succ _) hins, ?_, ?_⟩
  · exact fun c hc heq => absurd (r.lt_fresh c hc) (heq ▸ lt_irrefl _)
  · exact fun q hq => expire_congr (hnew q hq).2
  · exact ⟨_, (congrFun hins.data _).trans (Store.data_of_cell hcell), rfl, rfl⟩
  · intro q f d hcarries
    refine hcarries.of_data ((congrFun hins.data q).trans (hnew q ?_).2)
    intro hq
    obtain ⟨t, ht, -⟩ := hcarries
    obtain ⟨t', ht', -⟩ := Store.cell_of_data ht
    exact absurd (l.store.lt_fresh q ht') (hq ▸ lt_irrefl _)

lemma Refines.adjust {e₀ : ℤ} (r : l.Refines h ts) (hp : h.queue.Until p e₀) (hle : e₀ ≤ e) :
    ∃ l₁ l' ts', l.setExpire (some p) e = some l₁ ∧ l₁.adjustTimer (some p) = some l' ∧
      l'.Refines (h.set p e) ts' ∧ ∀ q f d, l.Carries q f d → l'.Carries q f d := by
  obtain ⟨a, b, rfl⟩ := List.append_of_mem ((r.lists.mem p).mpr hp.waits)
  obtain ⟨t, ht⟩ := Store.cell_of_mem r.holds.isList (by simp : p ∈ a ++ p :: b)
  obtain ⟨l₁, h₁, hexpire, hlinks, hpay, hhead, htail, hfresh, hcarries⟩ := setExpire_spec e ht
  obtain ⟨t₁, hcell, he₁⟩ := cell_of_expire hexpire
  have hnotMem : p ∉ a ++ b :=
    (List.nodup_cons.mp (List.nodup_middle.mp r.lists.nodup)).1
  have hexp : ∀ q, q ≠ p → l₁.expire q = l.expire q := fun q hq => expire_congr (hpay q hq)
  have hholds : l₁.Holds (a ++ p :: b) :=
    ⟨by rw [hlinks, hhead]; exact r.holds.isList, by rw [htail]; exact r.holds.tail⟩
  have hbefore : ∀ q ∈ a, ∀ e', l₁.expire q = some e' → e' ≤ e := by
    intro q hq e' he'
    obtain ⟨e'', he''⟩ := (r.lists.waits_left hq).until
    have hne : q ≠ p := fun heq => hnotMem (heq ▸ List.mem_append_left _ hq)
    obtain rfl : e'' = e' := by
      rw [hexp q hne, r.expire q e'' he''] at he'
      exact Option.some.inj he'
    exact (r.lists.le_of_append hq (by simp) he'' hp).trans hle
  obtain ⟨l', r₁, r₂, hl', happ, hins⟩ := adjustTimer_spec hholds hcell (he₁ ▸ hbefore)
  rw [he₁] at hins
  have hq := r.lists.remove_one
  rw [happ] at hq hnotMem
  refine ⟨l₁, l', r₁ ++ p :: r₂, h₁, hl', r.set hq DeadlineQueue.remove_put hnotMem ?_ ?_ hexp
    hexpire hfresh.ge hins, fun q f d hq => (hcarries q f d hq).of_data (congrFun hins.data q)⟩
  · exact fun q e' he' => (DeadlineQueue.until_remove.mp he').2
  · exact fun c hc heq => r.gone c hc (heq ▸ hp.waits)

lemma Refines.del (r : l.Refines h ts) (hp : h.queue.Waits p) :
    ∃ l' ts', l.delTimer (some p) = some l' ∧ l'.Refines (h.del p) ts' ∧
      ∀ q f d, q ≠ p → l.Carries q f d → l'.Carries q f d := by
  obtain ⟨a, b, rfl⟩ := List.append_of_mem ((r.lists.mem p).mpr hp)
  obtain ⟨l', hl', hholds, hrem⟩ := delTimer_spec r.holds
  refine ⟨l', a ++ b, hl', ⟨hholds, r.lists.remove_one, ?_, ?_, ?_, ?_, r.nodup, r.onTime⟩,
    fun q f d hq hcarries => hcarries.of_data (by rw [hrem.data, if_neg (by simpa using hq)])⟩
  · intro q e' he'
    obtain ⟨hq, he'⟩ := DeadlineQueue.until_remove.mp he'
    rw [expire_of_removed hrem hq]
    exact r.expire q e' he'
  · exact fun q e' he' => r.lastSet q e' (DeadlineQueue.until_remove.mp he').2
  · exact fun c hc => hrem.fresh ▸ r.lt_fresh c hc
  · exact fun c hc hw => r.gone c hc (DeadlineQueue.waits_remove.mp hw).2

/-- What a `tick` calls is what is due, in order; the others stay in place. -/
lemma Refines.tick (r : l.Refines h ts) (cur : ℤ) :
    ∃ l' calls r₁ r₂, l.tick cur = some (l', calls) ∧ ts = r₁ ++ r₂ ∧
      l.Ticked l' cur calls r₁ r₂ ∧ (∀ p ∈ r₁, h.queue.Due cur p) ∧
      (∀ p ∈ r₂, ¬ h.queue.Due cur p) ∧ l'.Refines (h.tick cur calls) r₂ := by
  obtain ⟨l', calls, r₁, r₂, hl', rfl, htick⟩ := tick_spec cur r.holds
  have hdue : ∀ p ∈ r₁, h.queue.Due cur p := by
    intro p hp
    obtain ⟨e, he⟩ := (r.lists.waits_left hp).until
    obtain ⟨e', he', hle⟩ := htick.expired p hp
    obtain rfl : e = e' := by simpa [r.expire p e he] using he'
    exact ⟨e, he, hle⟩
  have hlater : ∀ p ∈ r₂, ¬ h.queue.Due cur p := by
    rintro p hp ⟨e, he, hle⟩
    cases hr₂ : r₂ with
    | nil => simp [hr₂] at hp
    | cons y ys =>
      subst hr₂
      obtain ⟨e', he'⟩ := (r.lists.waits_right (p := y) (by simp)).until
      obtain ⟨e'', he'', hlt⟩ := htick.stop y rfl
      obtain rfl : e' = e'' := by simpa [r.expire y e' he'] using he''
      rcases List.mem_cons.mp hp with rfl | hp
      · exact absurd hle (not_le_of_gt (he.unique he' ▸ hlt))
      · have hq : h.queue.Lists ((r₁ ++ [y]) ++ ys) := by simpa using r.lists
        exact absurd (hq.le_of_append (by simp) hp he' he) (not_le_of_gt (hle.trans_lt hlt))
  have hcalls : (calls.map fun c => (⟨cur, c.1, c.2⟩ : Call A)).map Call.timer = r₁ := by
    rw [List.map_map, ← htick.timers]
    rfl
  have hmem : ∀ c ∈ calls.map fun c => (⟨cur, c.1, c.2⟩ : Call A), c.timer ∈ r₁ ∧ c.time = cur := by
    intro c hc
    refine ⟨hcalls ▸ List.mem_map_of_mem hc, ?_⟩
    obtain ⟨x, -, rfl⟩ := List.mem_map.mp hc
    rfl
  refine ⟨l', calls, r₁, r₂, hl', rfl, htick, hdue, hlater, htick.holds, ?_, ?_, ?_, ?_, ?_, ?_, ?_⟩
  · simpa only [History.tick, htick.timers] using r.lists.remove_front
  · intro q e he
    obtain ⟨hq, he⟩ := DeadlineQueue.until_remove.mp he
    rw [htick.timers] at hq
    rw [expire_of_removed htick.removed hq]
    exact r.expire q e he
  · exact fun q e he => r.lastSet q e (DeadlineQueue.until_remove.mp he).2
  · intro c hc
    rw [htick.removed.fresh]
    rcases List.mem_append.mp hc with hc | hc
    · exact r.lt_fresh c hc
    · exact r.lt_fresh_of_waits (r.lists.waits_left (hmem c hc).1)
  · intro c hc hw
    obtain ⟨hnot, hw⟩ := DeadlineQueue.waits_remove.mp hw
    rcases List.mem_append.mp hc with hc | hc
    · exact r.gone c hc hw
    · exact hnot (htick.timers ▸ (hmem c hc).1)
  · simp only [History.tick, List.map_append, hcalls]
    refine List.nodup_append.mpr ⟨r.nodup, (List.nodup_append.mp r.lists.nodup).1, ?_⟩
    rintro q hq q' hq' rfl
    obtain ⟨c, hc, rfl⟩ := List.mem_map.mp hq
    exact r.gone c hc (r.lists.waits_left hq')
  · intro c hc
    rcases List.mem_append.mp hc with hc | hc
    · exact r.onTime c hc
    · obtain ⟨hq, htime⟩ := hmem c hc
      obtain ⟨e, he, hle⟩ := hdue c.timer hq
      exact ⟨e, r.lastSet _ e he, htime ▸ hle⟩

/-- Every run refines its history. -/
theorem Run.refines (hrun : Run l h) : ∃ ts, l.Refines h ts := by
  induction hrun with
  | init => exact ⟨[], Refines.init⟩
  | add e cbFunc userData _ hnew hadd ih =>
    obtain ⟨ts, r⟩ := ih
    obtain ⟨l', ts', hl', r', -⟩ := r.add e cbFunc userData
    cases hnew
    cases hl'.symm.trans hadd
    exact ⟨ts', r'⟩
  | adjust p e₀ e _ hp hle hset hadj ih =>
    obtain ⟨ts, r⟩ := ih
    obtain ⟨l₁, l', ts', h₁, hl', r', -⟩ := r.adjust hp hle
    cases h₁.symm.trans hset
    cases hl'.symm.trans hadj
    exact ⟨ts', r'⟩
  | del p _ hp hdel ih =>
    obtain ⟨ts, r⟩ := ih
    obtain ⟨l', ts', hl', r', -⟩ := r.del hp
    cases hl'.symm.trans hdel
    exact ⟨ts', r'⟩
  | tick cur _ htick ih =>
    obtain ⟨ts, r⟩ := ih
    obtain ⟨l', calls, -, r₂, hl', -, -, -, -, r'⟩ := r.tick cur
    cases hl'.symm.trans htick
    exact ⟨r₂, r'⟩

/-! ### The structure of the list in every run -/

/-- From `head` along `next` come the live timers, each once and by `expire`; `prev` leads back,
and `tail` is the last one unless the list is empty. -/
structure WellFormed (l : SortTimerLst D A) (h : History A) (ts : List ℕ) : Prop where
  isList : IsList l.store.links l.head ts
  nodup : ts.Nodup
  mem : ∀ p, p ∈ ts ↔ h.queue.Waits p
  expire : ∀ p ∈ ts, ∃ e, l.expire p = some e ∧ h.queue.Until p e
  sorted : ts.Pairwise fun p r => ∀ e e', l.expire p = some e → l.expire r = some e' → e ≤ e'
  tail : l.head ≠ none → l.tail = ts.getLast?

/-- No operation that a caller may do next follows a null or dangling pointer. -/
structure Defined (l : SortTimerLst D A) (h : History A) : Prop where
  add : ∀ e cbFunc userData, ∃ l',
    (l.newTimer e cbFunc userData).1.addTimer (some (l.newTimer e cbFunc userData).2) = some l'
  adjust : ∀ p e₀ e, h.queue.Until p e₀ → e₀ ≤ e →
    ∃ l₁ l', l.setExpire (some p) e = some l₁ ∧ l₁.adjustTimer (some p) = some l'
  del : ∀ p, h.queue.Waits p → ∃ l', l.delTimer (some p) = some l'
  tick : ∀ cur, ∃ l' calls, l.tick cur = some (l', calls)

lemma Refines.wellFormed (r : l.Refines h ts) : l.WellFormed h ts := by
  refine ⟨r.holds.isList, r.lists.nodup, r.lists.mem, ?_, ?_, ?_⟩
  · intro p hp
    obtain ⟨e, he⟩ := ((r.lists.mem p).mp hp).until
    exact ⟨e, r.expire p e he, he⟩
  · apply r.lists.pairwise.imp_of_mem
    intro p q hp hq hb e e' he he'
    obtain ⟨x, hx⟩ := ((r.lists.mem p).mp hp).until
    obtain ⟨y, hy⟩ := ((r.lists.mem q).mp hq).until
    obtain rfl : x = e := by simpa [r.expire p x hx] using he
    obtain rfl : y = e' := by simpa [r.expire q y hy] using he'
    exact hb.le hx hy
  · intro hhead
    apply r.holds.tail
    intro hts
    apply hhead
    rw [r.holds.isList.head_eq, hts, List.head?_nil]

lemma Refines.defined (r : l.Refines h ts) : l.Defined h where
  add e cbFunc userData := by
    obtain ⟨l', -, hl', -⟩ := r.add e cbFunc userData
    exact ⟨l', hl'⟩
  adjust p e₀ e hp hle := by
    obtain ⟨l₁, l', -, h₁, hl', -⟩ := r.adjust hp hle
    exact ⟨l₁, l', h₁, hl'⟩
  del p hp := by
    obtain ⟨l', -, hl', -⟩ := r.del hp
    exact ⟨l', hl'⟩
  tick cur := by
    obtain ⟨l', calls, -, -, hl', -⟩ := r.tick cur
    exact ⟨l', calls, hl'⟩

/-- In every run the pointers are a sorted doubly linked list of exactly the live timers, and
every next operation is defined. -/
theorem run_wellFormed (hrun : Run l h) : (∃ ts, l.WellFormed h ts) ∧ l.Defined h := by
  obtain ⟨ts, r⟩ := hrun.refines
  exact ⟨⟨ts, r.wellFormed⟩, r.defined⟩

/-- A tick that empties the list leaves `tail` stale, and the next `add_timer` mends it. -/
theorem run_wellFormed_after_emptying :
    ∃ (l : SortTimerLst ℕ ℕ) (h : History ℕ), Run l h ∧ l.head = some 2 ∧ l.tail = some 2 ∧
      (∃ ts, l.WellFormed h ts) ∧ l.Defined h :=
  have hrun := Run.add 9 id 7 (Run.tick 6 (Run.add 4 id 8 (Run.add 5 id 9 Run.init rfl rfl)
    rfl rfl) rfl) rfl rfl
  ⟨_, _, hrun, rfl, rfl, run_wellFormed hrun⟩

/-! ### What a tick fires in every run -/

/-- A `tick` at `cur` calls the callbacks of exactly the timers that are due, each once, by `expire`
and then by their last `add_timer` or `adjust_timer`; it deletes those and leaves the others
in place. Over the whole run no timer fires twice, nor before its last set `expire`. -/
theorem run_tick_refines (hrun : Run l h) :
    (∀ cur, ∃ ts l' calls, IsList l.store.links l.head ts ∧ l.tick cur = some (l', calls) ∧
      (∀ p, p ∈ calls.map Prod.fst ↔ h.queue.Due cur p) ∧
      (calls.map Prod.fst).Pairwise h.queue.Before ∧ (calls.map Prod.fst).Nodup ∧
      (∀ c ∈ calls, ∃ t, l.store.cell c.1 = some t ∧ c.2 = t.cbFunc t.userData) ∧
      (∀ p ∈ calls.map Prod.fst, l'.store.cell p = none) ∧
      (∀ p, p ∉ calls.map Prod.fst → l'.store.data p = l.store.data p) ∧
      IsList l'.store.links l'.head (ts.filter fun p => p ∉ calls.map Prod.fst)) ∧
    (h.fired.map Call.timer).Nodup ∧
    (∀ c ∈ h.fired, ∃ e, h.lastSet c.timer = some e ∧ e ≤ c.time) := by
  obtain ⟨ts, r⟩ := hrun.refines
  refine ⟨?_, r.nodup, r.onTime⟩
  intro cur
  obtain ⟨l', calls, r₁, r₂, hl', rfl, htick, hdue, hlater, r'⟩ := r.tick cur
  obtain ⟨hnd₁, -, hdisj⟩ := List.nodup_append.mp r.lists.nodup
  refine ⟨r₁ ++ r₂, l', calls, r.holds.isList, hl', ?_⟩
  rw [htick.timers]
  refine ⟨fun p => ⟨hdue p, ?_⟩, ?_, hnd₁, ?_, ?_, ?_, ?_⟩
  · intro hp
    rcases List.mem_append.mp ((r.lists.mem p).mpr hp.waits) with hmem | hmem
    · exact hmem
    · exact absurd hp (hlater p hmem)
  · exact (List.pairwise_append.mp r.lists.pairwise).1
  · intro c hc
    obtain ⟨d, hd, hact⟩ := htick.calls c hc
    obtain ⟨t, ht, rfl⟩ := Store.cell_of_data hd
    exact ⟨t, ht, hact⟩
  · intro p hp
    have hdata := htick.removed.data p
    rw [if_pos hp] at hdata
    exact Option.map_eq_none_iff.mp hdata
  · intro p hp
    rw [htick.removed.data, if_neg hp]
  · have hstay : ∀ p ∈ r₂, decide (p ∉ r₁) = true := fun p hp =>
      decide_eq_true fun hmem => hdisj p hmem p hp rfl
    have hgone : ∀ p ∈ r₁, ¬ decide (p ∉ r₁) = true := fun p hp => by simpa using hp
    rw [List.filter_append, List.filter_eq_nil_iff.mpr hgone, List.nil_append,
      List.filter_eq_self.mpr hstay]
    exact htick.holds.isList

/-- Of three timers, one adjusted to the `expire` of another, two are due; the adjusted one is
called last. -/
theorem run_tick_refines_three :
    ∃ (l l' : SortTimerLst ℕ ℕ) (h : History ℕ), Run l h ∧
      l.tick 6 = some (l', [(1, 20), (0, 10)]) ∧ (h.fired.map Call.timer).Nodup :=
  have hrun := Run.adjust 0 5 6 (Run.add 9 id 30 (Run.add 6 id 20 (Run.add 5 id 10 Run.init rfl rfl)
    rfl rfl) rfl rfl) ⟨0, rfl⟩ (by decide) rfl rfl
  ⟨_, _, _, hrun, rfl, (run_tick_refines hrun).2.1⟩

end LinuxServer.SortTimerLst
