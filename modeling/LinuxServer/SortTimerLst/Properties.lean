import LinuxServer.SortTimerLst.Basic

/-!
# What the operations of the sorted timer list do

`l.Holds ts` says that the pointers of `l` are a doubly linked list of `ts`, with `tail` its last
node. Each operation has one theorem: it is defined, and it takes `Holds` for the old list to
`Holds` for the new one, without touching what the timers carry.
-/

namespace LinuxServer

open Core Core.Dll

variable {D A : Type*}

namespace SortTimerLst

/-- The `expire` of a live timer. -/
def expire (l : SortTimerLst D A) (p : ℕ) : Option ℤ := (l.store.data p).map UtilTimer.expire

/-- The pointers of `l` are the list `ts`. After a `tick` that removed every timer, `tail` still
points to the last one; it means nothing until the next `add_timer`. -/
structure Holds (l : SortTimerLst D A) (ts : List ℕ) : Prop where
  isList : IsList l.store.links l.head ts
  tail : ts ≠ [] → l.tail = ts.getLast?

variable {l l' : SortTimerLst D A} {p timer : ℕ} {t : UtilTimer D A} {ts l₁ l₂ : List ℕ}

lemma expire_of_cell (h : l.store.cell p = some t) : l.expire p = some t.expire := by
  rw [expire, Store.data_of_cell h]
  rfl

lemma expire_congr {q : ℕ} (h : l'.store.data q = l.store.data q) : l'.expire q = l.expire q :=
  congrArg (Option.map UtilTimer.expire) h

lemma cell_of_expire {e : ℤ} (h : l.expire p = some e) :
    ∃ t, l.store.cell p = some t ∧ t.expire = e := by
  obtain ⟨d, hd, he⟩ := Option.map_eq_some_iff.mp h
  obtain ⟨t, ht, rfl⟩ := Store.cell_of_data hd
  exact ⟨t, ht, he⟩

/-- The timer `p` calls `f` with `d`. -/
def Carries (l : SortTimerLst D A) (p : ℕ) (f : D → A) (d : D) : Prop :=
  ∃ t, l.store.data p = some t ∧ t.cbFunc = f ∧ t.userData = d

variable {f : D → A} {d : D}

lemma Carries.of_data (h : l.Carries p f d) (hdata : l'.store.data p = l.store.data p) :
    l'.Carries p f d := by
  obtain ⟨t, ht, hf, hd⟩ := h
  exact ⟨t, hdata.trans ht, hf, hd⟩

lemma Carries.unique {f' : D → A} {d' : D} (h : l.Carries p f d) (h' : l.Carries p f' d') :
    f = f' ∧ d = d' := by
  obtain ⟨t, ht, rfl, rfl⟩ := h
  obtain ⟨t', ht', rfl, rfl⟩ := h'
  cases ht.symm.trans ht'
  exact ⟨rfl, rfl⟩

lemma setExpire_spec (e : ℤ) (h : l.store.cell p = some t) :
    ∃ l', l.setExpire (some p) e = some l' ∧ l'.expire p = some e ∧
      l'.store.links = l.store.links ∧ (∀ q, q ≠ p → l'.store.data q = l.store.data q) ∧
      l'.head = l.head ∧ l'.tail = l.tail ∧ l'.store.fresh = l.store.fresh ∧
      ∀ q (f : D → A) d, l.Carries q f d → l'.Carries q f d := by
  obtain ⟨s, hs, hlinks, hfresh, hdata⟩ := Store.assign_data
    (f := fun t => { t with expire := e }) (fun _ => rfl) (fun _ => rfl) h
  refine ⟨⟨s, l.head, l.tail⟩, ?_, ?_, hlinks, ?_, rfl, rfl, hfresh, ?_⟩
  · rw [setExpire, hs, Option.map_some]
  · rw [expire, hdata, if_pos rfl, Store.data_of_cell h]
    rfl
  · intro q hq
    rw [hdata, if_neg hq]
  · rintro q f d ⟨t', ht', hf, hd⟩
    by_cases hq : q = p
    · refine ⟨{ t' with expire := e }, ?_, hf, hd⟩
      rw [hdata, if_pos hq, ht', Option.map_some]
    · exact ⟨t', (hdata q).trans ((if_neg hq).trans ht'), hf, hd⟩

/-! ### `add_timer` -/

/-- `l'` is `l` with `timer` put between `r₁` and `r₂`, behind the timers that expire no later. -/
structure Inserted (l l' : SortTimerLst D A) (timer : ℕ) (e : ℤ) (r₁ r₂ : List ℕ) : Prop where
  holds : l'.Holds (r₁ ++ timer :: r₂)
  data : l'.store.data = l.store.data
  fresh : l'.store.fresh = l.store.fresh
  before : ∀ r ∈ r₁, ∀ e', l.expire r = some e' → e' ≤ e
  after : ∀ r, r₂.head? = some r → ∀ e', l.expire r = some e' → e < e'

lemma ne_of_notMem {q : ℕ} (hp : p ∉ ts) (hq : q ∈ ts) : some p ≠ some q := by
  rintro ⟨rfl⟩
  exact hp hq

/-- The assignments of the loop when it has run to the end of the list. -/
lemma insertLast_spec {s : Store (UtilTimer D A)} {hd : Link} (hl : IsList s.links hd ts)
    (hne : ts ≠ []) (hp : timer ∉ ts) (ht : s.cell timer = some t) :
    ∃ s', (∀ k : Store (UtilTimer D A) → Option (SortTimerLst D A), (do
        let s ← s.setNext ts.getLast? (some timer)
        let s ← s.setPrev (some timer) ts.getLast?
        let s ← s.setNext (some timer) none
        k s) = k s') ∧
      IsList s'.links hd (ts ++ [timer]) ∧ s'.data = s.data ∧ s'.fresh = s.fresh := by
  obtain ⟨x, hx⟩ : ∃ x, ts.getLast? = some x := Option.isSome_iff_exists.mp (by simp [hne])
  have hlive : ∃ n, s.links timer = some n := ⟨_, Store.links_of_cell ht⟩
  rw [hx]
  obtain ⟨s₁, h₁, r₁⟩ := (Store.Relinked.refl s).setNext (some timer)
    (hl.live (List.mem_of_getLast? hx))
  obtain ⟨s₂, h₂, r₂⟩ := r₁.setPrev (some x) (live_setNext hlive)
  obtain ⟨s₃, h₃, r₃⟩ := r₂.setNext none (live_setPrev (live_setNext hlive))
  have hxt : some x ≠ some timer := (ne_of_notMem hp (List.mem_of_getLast? hx)).symm
  have hlist : IsList s.links hd (ts ++ []) := by simpa using hl
  have hlist' : IsList s₃.links (ts ++ [timer]).head? (ts ++ [timer]) := by
    rw [r₃.links]
    apply hlist.link
    · simp [Dll.setNext, Dll.setPrev, hxt, hx, Store.links_of_cell ht]
    · intro q hq
      have hq' : some timer ≠ some q := ne_of_notMem hp (by simpa using hq)
      simp [Dll.setNext, Dll.setPrev, hq', hx]
  have hhead : hd = (ts ++ [timer]).head? := by
    rw [hl.head_eq, List.head?_append_of_ne_nil _ hne]
  exact ⟨s₃, by simp [h₁, h₂, h₃], hhead ▸ hlist', r₃.data, r₃.fresh⟩

/-- The assignments of the loop when it has found the first timer that expires later. -/
lemma insertBefore_spec {s : Store (UtilTimer D A)} {hd : Link} {tmp : ℕ}
    (hl : IsList s.links hd (l₁ ++ tmp :: l₂)) (hne : l₁ ≠ []) (hp : timer ∉ l₁ ++ tmp :: l₂)
    (ht : s.cell timer = some t) :
    ∃ s', (∀ k : Store (UtilTimer D A) → Option (SortTimerLst D A), (do
        let s ← s.setNext l₁.getLast? (some timer)
        let s ← s.setNext (some timer) (some tmp)
        let s ← s.setPrev (some tmp) (some timer)
        let s ← s.setPrev (some timer) l₁.getLast?
        k s) = k s') ∧
      IsList s'.links hd (l₁ ++ timer :: tmp :: l₂) ∧ s'.data = s.data ∧ s'.fresh = s.fresh := by
  obtain ⟨x, hx⟩ : ∃ x, l₁.getLast? = some x := Option.isSome_iff_exists.mp (by simp [hne])
  have hxmem : x ∈ l₁ ++ tmp :: l₂ := List.mem_append_left _ (List.mem_of_getLast? hx)
  have hlive : ∃ n, s.links timer = some n := ⟨_, Store.links_of_cell ht⟩
  have htmp : ∃ n, s.links tmp = some n := hl.live (by simp)
  rw [hx]
  obtain ⟨s₁, h₁, r₁⟩ := (Store.Relinked.refl s).setNext (some timer) (hl.live hxmem)
  obtain ⟨s₂, h₂, r₂⟩ := r₁.setNext (some tmp) (live_setNext hlive)
  obtain ⟨s₃, h₃, r₃⟩ := r₂.setPrev (some timer) (live_setNext (live_setNext htmp))
  obtain ⟨s₄, h₄, r₄⟩ := r₃.setPrev (some x) (live_setPrev (live_setNext (live_setNext hlive)))
  have hxt : some x ≠ some timer := (ne_of_notMem hp hxmem).symm
  have htt : some tmp ≠ some timer := (ne_of_notMem hp (by simp)).symm
  have hlist' : IsList s₄.links (l₁ ++ timer :: tmp :: l₂).head? (l₁ ++ timer :: tmp :: l₂) := by
    rw [r₄.links]
    apply hl.link
    · simp [Dll.setNext, Dll.setPrev, hxt, htt, hx, Store.links_of_cell ht]
    · intro q hq
      have hq' : some timer ≠ some q := ne_of_notMem hp hq
      simp [Dll.setNext, Dll.setPrev, hq', hx]
  have hhead : hd = (l₁ ++ timer :: tmp :: l₂).head? := by
    rw [hl.head_eq, List.head?_append_of_ne_nil _ hne, List.head?_append_of_ne_nil _ hne]
  exact ⟨s₄, by simp [h₁, h₂, h₃, h₄], hhead ▸ hlist', r₄.data, r₄.fresh⟩

/-- The loop of the private `add_timer`, with `l₁` behind it and `l₂` before it. -/
theorem addTimerLoop_spec (ht : l.store.cell timer = some t) :
    ∀ (l₂ l₁ : List ℕ) (fuel : ℕ), l.Holds (l₁ ++ l₂) → l₁ ≠ [] → timer ∉ l₁ ++ l₂ →
      l₂.length < fuel → (∀ r ∈ l₁, ∀ e', l.expire r = some e' → e' ≤ t.expire) →
      ∃ l' r₁ r₂, l.addTimerLoop timer fuel l₁.getLast? l₂.head? = some l' ∧
        l₁ ++ l₂ = r₁ ++ r₂ ∧ l.Inserted l' timer t.expire r₁ r₂
  | _, _, 0, _, _, _, hfuel, _ => absurd hfuel (Nat.not_lt_zero _)
  | [], l₁, fuel + 1, hl, hne, hp, _, hle => by
    rw [List.append_nil] at hl hp
    obtain ⟨s, hs, hlist, hdata, hfresh⟩ := insertLast_spec hl.isList hne hp ht
    exact ⟨{ l with store := s, tail := some timer }, l₁, [], hs _, rfl, ⟨hlist, by simp⟩, hdata,
      hfresh, hle, by simp⟩
  | tmp :: l₂, l₁, fuel + 1, hl, hne, hp, hfuel, hle => by
    obtain ⟨n, hn, hnode⟩ := Store.cell_of_links hl.isList.links_at
    have hnext : n.next = l₂.head? := congrArg Node.next hnode
    rw [List.head?_cons, addTimerLoop]
    simp only [ht, hn, Option.bind_eq_bind, Option.bind_some]
    split
    next hlt =>
      obtain ⟨s, hs, hlist, hdata, hfresh⟩ := insertBefore_spec hl.isList hne hp ht
      refine ⟨{ l with store := s }, l₁, tmp :: l₂, hs _, rfl, ⟨hlist, fun _ => ?_⟩, hdata, hfresh,
        hle, ?_⟩
      · rw [hl.tail (by simp)]
        simp [List.getLast?_append, List.getLast?_cons_cons]
      rintro r hr e' he'
      obtain rfl : tmp = r := by simpa using hr
      obtain rfl : n.expire = e' := by simpa [expire_of_cell hn] using he'
      exact hlt
    next hge =>
      have hlast : some tmp = (l₁ ++ [tmp]).getLast? := by simp
      have happ : l₁ ++ tmp :: l₂ = (l₁ ++ [tmp]) ++ l₂ := by simp
      rw [happ] at hl hp ⊢
      rw [hnext, hlast]
      refine addTimerLoop_spec ht l₂ (l₁ ++ [tmp]) fuel hl (by simp) hp
        (Nat.lt_of_succ_lt_succ hfuel) ?_
      intro r hr e' he'
      rcases List.mem_append.mp hr with hr | hr
      · exact hle r hr e' he'
      · obtain rfl : r = tmp := by simpa using hr
        obtain rfl : n.expire = e' := by simpa [expire_of_cell hn] using he'
        exact le_of_not_gt hge

lemma Holds.length_lt_fuel (hl : l.Holds ts) : ts.length < l.fuel :=
  Nat.lt_succ_of_le (Store.length_le_fresh hl.isList)

theorem addTimerFrom_spec {h : ℕ} (lstHead : Link) (hl : l.Holds (h :: ts))
    (ht : l.store.cell timer = some t) (hp : timer ∉ h :: ts)
    (hle : ∀ e', l.expire h = some e' → e' ≤ t.expire) :
    ∃ l' r₁ r₂, l.addTimerFrom timer lstHead = some l' ∧ h :: ts = r₁ ++ r₂ ∧
      l.Inserted l' timer t.expire r₁ r₂ := by
  have hhead : l.head = some h := hl.isList.head_eq
  obtain ⟨th, hth, hnode⟩ := Store.cell_of_links hl.isList.links_head
  have hnext : th.next = ts.head? := congrArg Node.next hnode
  have hlen : ts.length < l.fuel := Nat.lt_of_succ_lt hl.length_lt_fuel
  have hloop := addTimerLoop_spec ht ts [h] l.fuel hl (by simp) hp hlen (by simpa using hle)
  simpa [addTimerFrom, hhead, hth, hnext] using hloop

/-- `add_timer` of a timer with null links that is not in the list. -/
theorem addTimer_spec (hl : l.Holds ts) (ht : l.store.cell timer = some t)
    (hnode : t.toNode = ⟨none, none⟩) (hp : timer ∉ ts) :
    ∃ l' r₁ r₂, l.addTimer (some timer) = some l' ∧ ts = r₁ ++ r₂ ∧
      l.Inserted l' timer t.expire r₁ r₂ := by
  have hlinks : l.store.links timer = some ⟨none, none⟩ := hnode ▸ Store.links_of_cell ht
  cases ts with
  | nil =>
    have hhead : l.head = none := hl.isList.head_eq
    refine ⟨{ l with head := some timer, tail := some timer }, [], [], by simp [addTimer, hhead],
      rfl, ⟨?_, fun _ => rfl⟩, rfl, rfl, by simp, by simp⟩
    exact ⟨rfl, none, hlinks, rfl⟩
  | cons h ts =>
    have hhead : l.head = some h := hl.isList.head_eq
    obtain ⟨th, hth⟩ := Store.cell_of_mem hl.isList (by simp : h ∈ _)
    simp only [addTimer, hhead, reduceCtorEq, if_false, ht, Store.deref_some, hth,
      Option.bind_eq_bind, Option.bind_some]
    split
    next hlt =>
      have hhlive : ∃ n, l.store.links h = some n := hl.isList.live (by simp)
      obtain ⟨s₁, h₁, r₁⟩ := (Store.Relinked.refl l.store).setNext (some h) ⟨_, hlinks⟩
      obtain ⟨s₂, h₂, r₂⟩ := r₁.setPrev (some timer) (live_setNext hhlive)
      have hht : some h ≠ some timer := (ne_of_notMem hp (by simp)).symm
      have hlist : IsList s₂.links (some timer) (timer :: h :: ts) := by
        have hlist : IsList l.store.links l.head ([] ++ h :: ts) := hl.isList
        rw [r₂.links]
        apply hlist.link
        · simp [Dll.setNext, Dll.setPrev, hht, hlinks]
        · intro q hq
          have hq' : some timer ≠ some q := ne_of_notMem hp hq
          simp [Dll.setNext, Dll.setPrev, hq']
      refine ⟨{ l with store := s₂, head := some timer }, [], h :: ts, by simp [h₁, h₂], rfl,
        ⟨hlist, ?_⟩, r₂.data, r₂.fresh, by simp, ?_⟩
      · intro _
        show l.tail = _
        rw [hl.tail (by simp), List.nil_append, List.getLast?_cons_cons]
      · rintro r hr e' he'
        obtain rfl : h = r := by simpa using hr
        obtain rfl : th.expire = e' := by simpa [expire_of_cell hth] using he'
        exact hlt
    next hge =>
      apply addTimerFrom_spec (some h) hl ht hp
      intro e' he'
      obtain rfl : th.expire = e' := by simpa [expire_of_cell hth] using he'
      exact le_of_not_gt hge

/-! ### `adjust_timer` -/

lemma Inserted.of_same_data {l₀ : SortTimerLst D A} {e : ℤ} (h : l.Inserted l' timer e l₁ l₂)
    (hdata : l.store.data = l₀.store.data) (hfresh : l.store.fresh = l₀.store.fresh) :
    l₀.Inserted l' timer e l₁ l₂ := by
  have hexp : ∀ r, l.expire r = l₀.expire r := fun r => expire_congr (congrFun hdata r)
  exact ⟨h.holds, h.data.trans hdata, h.fresh.trans hfresh,
    fun r hr e' he' => h.before r hr e' (hexp r ▸ he'),
    fun r hr e' he' => h.after r hr e' (hexp r ▸ he')⟩

/-- The two ways in which `adjust_timer` takes a timer with a successor out of the list. -/
lemma adjustUnlink_spec {n : ℕ} (hl : l.Holds (l₁ ++ timer :: n :: l₂))
    (ht : l.store.cell timer = some t) :
    ∃ s, (if some timer = l.head then do
          let s ← l.store.setPrev (some n) none
          s.setNext (some timer) none
        else do
          let s ← l.store.setNext l₁.getLast? (some n)
          s.setPrev (some n) l₁.getLast?) = some s ∧
      { l with store := s, head := if some timer = l.head then some n else l.head }.Holds
        (l₁ ++ n :: l₂) ∧ s.data = l.store.data ∧ s.fresh = l.store.fresh := by
  have hnlive : ∃ m, l.store.links n = some m := hl.isList.live (by simp)
  have hp : timer ∉ l₁ ++ n :: l₂ :=
    (List.nodup_cons.mp (List.nodup_middle.mp hl.isList.nodup)).1
  have htail : l.tail = (l₁ ++ n :: l₂).getLast? := by
    rw [hl.tail (by simp)]
    simp [List.getLast?_append, List.getLast?_cons_cons]
  rcases List.eq_nil_or_concat' l₁ with rfl | ⟨l₁, x, rfl⟩
  · have hhead : some timer = l.head := hl.isList.head_eq.symm
    obtain ⟨s₁, h₁, r₁⟩ := (Store.Relinked.refl l.store).setPrev none hnlive
    obtain ⟨s₂, h₂, r₂⟩ := r₁.setNext none (live_setPrev ⟨_, Store.links_of_cell ht⟩)
    rw [if_pos hhead, if_pos hhead]
    refine ⟨s₂, by simp [h₁, h₂], ⟨?_, fun _ => htail⟩, r₂.data, r₂.fresh⟩
    apply hl.isList.unlink
    intro q hq
    have hq' : some timer ≠ some q := ne_of_notMem hp hq
    rw [r₂.links, setNext_of_ne hq', List.getLast?_nil, setNext_none]
    rfl
  · have hx : (l₁ ++ [x]).getLast? = some x := by simp
    have hhead : some timer ≠ l.head := by
      intro heq
      rw [hl.isList.head_eq] at heq
      rcases l₁ with _ | ⟨y, l₁⟩
      · exact ne_of_notMem hp (by simp) heq
      · exact ne_of_notMem hp (by simp) heq
    have hxlive : ∃ m, l.store.links x = some m := hl.isList.live (by simp)
    obtain ⟨s₁, h₁, r₁⟩ := (Store.Relinked.refl l.store).setNext (some n) hxlive
    obtain ⟨s₂, h₂, r₂⟩ := r₁.setPrev (some x) (live_setNext hnlive)
    have hhead' : l.head = (l₁ ++ [x] ++ n :: l₂).head? := by
      rw [hl.isList.head_eq]
      cases l₁ <;> rfl
    rw [if_neg hhead, if_neg hhead, hx]
    refine ⟨s₂, by simp [h₁, h₂], ⟨?_, fun _ => htail⟩, r₂.data, r₂.fresh⟩
    show IsList s₂.links l.head _
    rw [hhead', r₂.links]
    exact hl.isList.unlink fun q _ => by rw [hx, List.head?_cons]

/-- `adjust_timer` of a timer in the list that expires no earlier than those before it. -/
theorem adjustTimer_spec (hl : l.Holds (l₁ ++ timer :: l₂)) (ht : l.store.cell timer = some t)
    (hle : ∀ r ∈ l₁, ∀ e', l.expire r = some e' → e' ≤ t.expire) :
    ∃ l' r₁ r₂, l.adjustTimer (some timer) = some l' ∧ l₁ ++ l₂ = r₁ ++ r₂ ∧
      l.Inserted l' timer t.expire r₁ r₂ := by
  have hnode : t.toNode = ⟨l₁.getLast?, l₂.head?⟩ :=
    Option.some.inj ((Store.links_of_cell ht).symm.trans hl.isList.links_at)
  have hnext : t.next = l₂.head? := congrArg Node.next hnode
  have hprev : t.prev = l₁.getLast? := congrArg Node.prev hnode
  have hp : timer ∉ l₁ ++ l₂ := (List.nodup_cons.mp (List.nodup_middle.mp hl.isList.nodup)).1
  simp only [adjustTimer, ht, Option.bind_eq_bind, Option.bind_some]
  cases l₂ with
  | nil =>
    simp only [hnext, List.head?_nil]
    exact ⟨l, l₁, [], rfl, rfl, hl, rfl, rfl, hle, by simp⟩
  | cons n l₂ =>
    obtain ⟨tn, htn⟩ := Store.cell_of_mem hl.isList (by simp : n ∈ _)
    simp only [hnext, List.head?_cons, htn, Option.bind_some]
    split
    next hlt =>
      refine ⟨l, l₁, n :: l₂, rfl, rfl, hl, rfl, rfl, hle, ?_⟩
      rintro r hr e' he'
      obtain rfl : n = r := by simpa using hr
      obtain rfl : tn.expire = e' := by simpa [expire_of_cell htn] using he'
      exact hlt
    next hge =>
      obtain ⟨s, hs, hholds, hdata, hfresh⟩ := adjustUnlink_spec hl ht
      generalize hm : ({ l with
        store := s, head := if some timer = l.head then some n else l.head } : SortTimerLst D A) = m
        at hholds
      have hmdata : m.store.data = l.store.data := hm ▸ hdata
      have hmfresh : m.store.fresh = l.store.fresh := hm ▸ hfresh
      obtain ⟨t', ht', hexp⟩ := cell_of_expire
        ((expire_congr (congrFun hmdata timer)).trans (expire_of_cell ht))
      obtain ⟨h, ts, hts⟩ : ∃ h ts, l₁ ++ n :: l₂ = h :: ts := by
        cases l₁ with
        | nil => exact ⟨n, l₂, rfl⟩
        | cons h l₁ => exact ⟨h, l₁ ++ n :: l₂, rfl⟩
      have hle' : ∀ e', m.expire h = some e' → e' ≤ t'.expire := by
        intro e' he'
        rw [expire_congr (congrFun hmdata h)] at he'
        rw [hexp]
        cases l₁ with
        | nil =>
          obtain rfl : n = h := by simpa using congrArg List.head? hts
          obtain rfl : tn.expire = e' := by simpa [expire_of_cell htn] using he'
          exact le_of_not_gt hge
        | cons y l₁ =>
          obtain rfl : y = h := by simpa using congrArg List.head? hts
          exact hle y (by simp) e' he'
      rw [hts] at hholds hp ⊢
      obtain ⟨l', r₁, r₂, hl', happ, hins⟩ := addTimerFrom_spec (some n) hholds ht' hp hle'
      refine ⟨l', r₁, r₂, ?_, happ, hexp ▸ hins.of_same_data hmdata hmfresh⟩
      subst hm
      split at hs
      next hhead =>
        obtain ⟨s₁, h₁, h₂⟩ := Option.bind_eq_some_iff.mp hs
        rw [if_pos hhead] at hl' ⊢
        exact Option.bind_eq_some_iff.mpr ⟨s₁, h₁, Option.bind_eq_some_iff.mpr ⟨s, h₂, hl'⟩⟩
      next hhead =>
        obtain ⟨s₁, h₁, h₂⟩ := Option.bind_eq_some_iff.mp hs
        rw [if_neg hhead] at hl' ⊢
        rw [hprev]
        exact Option.bind_eq_some_iff.mpr ⟨s₁, h₁, Option.bind_eq_some_iff.mpr ⟨s, h₂, hl'⟩⟩

/-! ### `del_timer` -/

lemma Holds.head_iff (hl : l.Holds (l₁ ++ timer :: l₂)) : some timer = l.head ↔ l₁ = [] := by
  rw [hl.isList.head_eq]
  cases l₁ with
  | nil => simp
  | cons y l₁ =>
    have hne : timer ≠ y := by
      intro heq
      have hnd := hl.isList.nodup
      simp [heq] at hnd
    simpa using hne

lemma Holds.tail_iff (hl : l.Holds (l₁ ++ timer :: l₂)) : some timer = l.tail ↔ l₂ = [] := by
  rw [hl.tail (by simp)]
  rcases List.eq_nil_or_concat' l₂ with rfl | ⟨l₂, y, rfl⟩
  · simp
  · have hne : timer ≠ y := by
      intro heq
      have hnd := hl.isList.nodup
      simp [heq, List.nodup_append] at hnd
    simpa [List.getLast?_append, List.getLast?_cons] using hne

/-- `del_timer` of a timer in the list. -/
theorem delTimer_spec (hl : l.Holds (l₁ ++ timer :: l₂)) :
    ∃ l', l.delTimer (some timer) = some l' ∧ l'.Holds (l₁ ++ l₂) ∧
      l.store.Removed l'.store [timer] := by
  have hhead := hl.head_iff
  have htail := hl.tail_iff
  have hlinks := hl.isList.links_at
  obtain ⟨t, ht, hnode⟩ := Store.cell_of_links hlinks
  have hnext : t.next = l₂.head? := congrArg Node.next hnode
  have hprev : t.prev = l₁.getLast? := congrArg Node.prev hnode
  have hhd := hl.isList.head_eq
  rcases List.eq_nil_or_concat' l₁ with rfl | ⟨l₁, x, rfl⟩ <;> rcases l₂ with _ | ⟨n, l₂⟩
  · -- the only timer
    have hc : some timer = l.head ∧ some timer = l.tail := ⟨hhead.mpr rfl, htail.mpr rfl⟩
    obtain ⟨s, hs, hlist, hrem, -⟩ := (Store.Relinked.refl l.store).free hl.isList ⟨_, hlinks⟩
      (by simp)
    refine ⟨{ l with store := s, head := none, tail := none }, ?_, ⟨hlist, by simp⟩, hrem⟩
    rw [delTimer, if_pos hc, hs]
    rfl
  · -- the first of several
    have hc : ¬ (some timer = l.head ∧ some timer = l.tail) := by simp [htail]
    have hc' : some timer = l.head := hhead.mpr rfl
    obtain ⟨s₁, h₁, r₁⟩ := (Store.Relinked.refl l.store).setPrev none
      (hl.isList.live (by simp : n ∈ _))
    obtain ⟨s, hs, hlist, hrem, -⟩ := r₁.free hl.isList (live_setPrev ⟨_, hlinks⟩) (by simp)
    refine ⟨{ l with store := s, head := some n }, ?_, ⟨hlist, ?_⟩, hrem⟩
    · rw [delTimer, if_neg hc, if_pos hc', ht]
      simp [hnext, h₁, hs]
    · intro _
      exact (hl.tail (by simp)).trans (by simp [List.getLast?_cons_cons])
  · -- the last of several
    have hc : ¬ (some timer = l.head ∧ some timer = l.tail) := by simp [hhead]
    have hc' : ¬ some timer = l.head := by simp [hhead]
    have hc'' : some timer = l.tail := htail.mpr rfl
    obtain ⟨s₁, h₁, r₁⟩ := (Store.Relinked.refl l.store).setNext none
      (hl.isList.live (by simp : x ∈ _))
    obtain ⟨s, hs, hlist, hrem, -⟩ := r₁.free hl.isList (live_setNext ⟨_, hlinks⟩) (by simp)
    refine ⟨{ l with store := s, tail := some x }, ?_, ⟨?_, fun _ => by simp⟩, hrem⟩
    · rw [delTimer, if_neg hc, if_neg hc', if_pos hc'', ht]
      simp [hprev, h₁, hs]
    · show IsList s.links l.head _
      rw [hhd]
      cases l₁ <;> simpa using hlist
  · -- between two others
    have hc : ¬ (some timer = l.head ∧ some timer = l.tail) := by simp [hhead]
    have hc' : ¬ some timer = l.head := by simp [hhead]
    have hc'' : ¬ some timer = l.tail := by simp [htail]
    obtain ⟨s₁, h₁, r₁⟩ := (Store.Relinked.refl l.store).setNext (some n)
      (hl.isList.live (by simp : x ∈ _))
    obtain ⟨s₂, h₂, r₂⟩ := r₁.setPrev (some x) (live_setNext (hl.isList.live (by simp : n ∈ _)))
    obtain ⟨s, hs, hlist, hrem, -⟩ := r₂.free hl.isList (live_setPrev (live_setNext ⟨_, hlinks⟩))
      (by simp)
    refine ⟨{ l with store := s }, ?_, ⟨?_, ?_⟩, hrem⟩
    · rw [delTimer, if_neg hc, if_neg hc', if_neg hc'', ht]
      simp [hprev, hnext, h₁, h₂, hs]
    · show IsList s.links l.head _
      rw [hhd]
      cases l₁ <;> simpa using hlist
    · intro _
      show l.tail = _
      rw [hl.tail (by simp)]
      simp [List.getLast?_append, List.getLast?_cons]

/-! ### `tick` -/

lemma expire_of_removed {gone : List ℕ} (h : l.store.Removed l'.store gone) {q : ℕ}
    (hq : q ∉ gone) : l'.expire q = l.expire q :=
  expire_congr (by rw [h.data, if_neg hq])

/-- The front timer goes. -/
lemma tickOne_spec (hl : l.Holds (p :: ts)) :
    ∃ l', l.tickOne p ts.head? = some l' ∧ l'.Holds ts ∧ l.store.Removed l'.store [p] := by
  have hlinks := hl.isList.links_head
  have hlist : IsList l.store.links l.head ([] ++ p :: ts) := hl.isList
  cases ts with
  | nil =>
    obtain ⟨s, hs, hlist', hrem, -⟩ := (Store.Relinked.refl l.store).free hlist ⟨_, hlinks⟩
      (by simp)
    exact ⟨{ l with store := s, head := none }, by simp [tickOne, hs], ⟨hlist', by simp⟩, hrem⟩
  | cons n ts =>
    obtain ⟨s₁, h₁, r₁⟩ := (Store.Relinked.refl l.store).setPrev none
      (hl.isList.live (by simp : n ∈ _))
    obtain ⟨s, hs, hlist', hrem, -⟩ := r₁.free hlist (live_setPrev ⟨_, hlinks⟩) (by simp)
    refine ⟨{ l with store := s, head := some n }, by simp [tickOne, h₁, hs],
      ⟨hlist', ?_⟩, hrem⟩
    intro _
    exact (hl.tail (by simp)).trans (by simp [List.getLast?_cons_cons])

/-- At the time `cur` the timers `r₁` fired, with the calls `calls`, and `r₂` are left. -/
structure Ticked (l l' : SortTimerLst D A) (cur : ℤ) (calls : List (ℕ × A)) (r₁ r₂ : List ℕ) :
    Prop where
  holds : l'.Holds r₂
  removed : l.store.Removed l'.store r₁
  timers : calls.map Prod.fst = r₁
  calls : ∀ c ∈ calls, ∃ t, l.store.data c.1 = some t ∧ c.2 = t.cbFunc t.userData
  expired : ∀ r ∈ r₁, ∃ e, l.expire r = some e ∧ e ≤ cur
  stop : ∀ r, r₂.head? = some r → ∃ e, l.expire r = some e ∧ cur < e

theorem tickLoop_spec (cur : ℤ) : ∀ (ts : List ℕ) (fuel : ℕ) (l : SortTimerLst D A),
    l.Holds ts → ts.length < fuel → ∃ l' calls r₁ r₂,
      tickLoop cur fuel l l.head = some (l', calls) ∧ ts = r₁ ++ r₂ ∧
        l.Ticked l' cur calls r₁ r₂
  | _, 0, _, _, hfuel => absurd hfuel (Nat.not_lt_zero _)
  | [], fuel + 1, l, hl, _ => by
    have hhead : l.head = none := hl.isList.head_eq
    rw [hhead]
    refine ⟨l, [], [], [], rfl, rfl, hl, ⟨fun q => by simp, rfl⟩, rfl, ?_, ?_, ?_⟩ <;> simp
  | p :: ts, fuel + 1, l, hl, hfuel => by
    have hhead : l.head = some p := hl.isList.head_eq
    obtain ⟨t, ht, hnode⟩ := Store.cell_of_links hl.isList.links_head
    have hnext : t.next = ts.head? := congrArg Node.next hnode
    have hp : p ∉ ts := (List.nodup_cons.mp hl.isList.nodup).1
    rw [hhead, tickLoop]
    simp only [ht, Option.bind_eq_bind, Option.bind_some]
    split
    next hlt =>
      refine ⟨l, [], [], p :: ts, rfl, rfl, hl, ⟨fun q => by simp, rfl⟩, rfl, by simp, by simp, ?_⟩
      rintro r hr
      obtain rfl : p = r := by simpa using hr
      exact ⟨_, expire_of_cell ht, hlt⟩
    next hge =>
      obtain ⟨m, hm, hholds, hrem⟩ := tickOne_spec hl
      obtain ⟨l', calls, r₁, r₂, h', rfl, htick⟩ :=
        tickLoop_spec cur ts fuel m hholds (Nat.lt_of_succ_lt_succ hfuel)
      have hne : ∀ r ∈ r₁ ++ r₂, r ∉ [p] := fun r hr heq => hp (List.mem_singleton.mp heq ▸ hr)
      rw [← hnext] at hm
      refine ⟨l', (p, t.cbFunc t.userData) :: calls, p :: r₁, r₂, by simp [hm, h'], rfl,
        htick.holds, ⟨?_, htick.removed.fresh.trans hrem.fresh⟩, ?_, ?_, ?_, ?_⟩
      · intro q
        rw [htick.removed.data, hrem.data]
        by_cases hq : q = p <;> simp [hq]
      · rw [List.map_cons, htick.timers]
      · intro c hc
        rcases List.mem_cons.mp hc with rfl | hc
        · exact ⟨_, Store.data_of_cell ht, rfl⟩
        · obtain ⟨d, hd, heq⟩ := htick.calls c hc
          have hmem : c.1 ∈ r₁ := htick.timers ▸ List.mem_map_of_mem hc
          rw [hrem.data, if_neg (hne _ (List.mem_append_left _ hmem))] at hd
          exact ⟨d, hd, heq⟩
      · intro r hr
        rcases List.mem_cons.mp hr with rfl | hr
        · exact ⟨_, expire_of_cell ht, le_of_not_gt hge⟩
        · rw [← expire_of_removed hrem (hne r (List.mem_append_left _ hr))]
          exact htick.expired r hr
      · intro r hr
        rw [← expire_of_removed hrem (hne r (List.mem_append_right _ (List.mem_of_head? hr)))]
        exact htick.stop r hr

/-- `tick` takes the expired timers at the front of the list. -/
theorem tick_spec (cur : ℤ) (hl : l.Holds ts) :
    ∃ l' calls r₁ r₂, l.tick cur = some (l', calls) ∧ ts = r₁ ++ r₂ ∧
      l.Ticked l' cur calls r₁ r₂ := by
  obtain ⟨l', calls, r₁, r₂, h', happ, htick⟩ :=
    tickLoop_spec cur ts l.fuel l hl hl.length_lt_fuel
  refine ⟨l', calls, r₁, r₂, ?_, happ, htick⟩
  rw [tick]
  split
  next hhead =>
    rw [fuel, hhead, tickLoop] at h'
    exact h'
  next => exact h'

end SortTimerLst

end LinuxServer
