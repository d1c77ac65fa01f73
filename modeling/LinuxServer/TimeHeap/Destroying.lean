import LinuxServer.Core.Freeing
import LinuxServer.TimeHeap.Growing

/-!
# The end of a time heap

`add_timer` moves entries down and does not store the timer. When no entry is moved, the new place stays
null, and the timers below that place cannot be compared with it any more; when one is moved, the last
one to move stays where it was as well, and the destructor deletes it twice. So a heap comes to a good
end only when every timer is added below one that is there and not later.
-/

namespace LinuxServer

open Core

namespace TimeHeap

variable {s s' : Store HeapTimer} {c : Ctor} {h h' h₁ : TimeHeap} {timers adds : List ℕ} {l : Link}
  {i n fuel hole timer p : ℕ} {src dst array array' : List Link}

/-! ### The destructor -/

def entries (h : TimeHeap) : List Link := h.array.take h.curSize

lemma destroyLoop_eq : ∀ {n}, n ≤ h.array.length → h.destroyLoop n = h.store.freeAll (h.array.take n)
  | 0, _ => rfl
  | n + 1, hn => by
    have htake : h.array.take (n + 1) = h.array.take n ++ [h.array[n]] := by
      rw [List.take_add_one, List.getElem?_eq_getElem hn]
      rfl
    rw [destroyLoop, destroyLoop_eq (Nat.le_of_succ_le hn), htake, Store.freeAll_append,
      List.getElem?_eq_getElem hn]
    congr 1
    funext s
    cases h.array[n] with
    | none => rfl
    | some p =>
      show s.free p = (s.free p).bind fun s => some s
      cases s.free p <;> rfl

lemma le_length_of_destroyLoop : ∀ {n}, h.destroyLoop n = some s' → n ≤ h.array.length
  | 0, _ => Nat.zero_le _
  | n + 1, hs => by
    obtain ⟨s, -, hrest⟩ := Option.bind_eq_some_iff.mp hs
    obtain ⟨l, hl, -⟩ := Option.bind_eq_some_iff.mp hrest
    exact (List.getElem?_eq_some_iff.mp hl).1

/-- The destructor is defined if and only if its loop stays in the array, and no timer is deleted that is
gone. -/
lemma destroy_iff : (∃ s', h.destroy = some s') ↔
    h.curSize ≤ h.array.length ∧ h.store.Freeable h.entries := by
  constructor
  · rintro ⟨s', hs'⟩
    have hle := le_length_of_destroyLoop hs'
    rw [destroy, destroyLoop_eq hle] at hs'
    exact ⟨hle, Store.freeAll_iff.mp ⟨s', hs'⟩⟩
  · rintro ⟨hle, hfree⟩
    rw [destroy, destroyLoop_eq hle]
    exact Store.freeAll_iff.mpr hfree

/-! ### What counts of the array -/

/-- The array is there, and behind the entries it is null. -/
structure Sound (h : TimeHeap) : Prop where
  within : h.Within
  pos : 0 < h.capacity
  rest : ∀ l ∈ h.array.drop h.curSize, l = none

lemma Sound.count_entries (hs : h.Sound) (p : ℕ) : h.entries.count (some p) = h.array.count (some p) := by
  have hdrop : (h.array.drop h.curSize).count (some p) = 0 := by
    refine List.count_eq_zero_of_not_mem fun hmem => ?_
    cases hs.rest _ hmem
  rw [entries, ← Nat.add_zero (List.count _ _), ← hdrop, ← List.count_append, List.take_append_drop]

lemma Sound.getElem?_eq (hs : h.Sound) (hi : h.curSize ≤ i) (hl : h.array[i]? = some l) : l = none := by
  refine hs.rest l (List.mem_of_getElem? (i := i - h.curSize) ?_)
  rw [List.getElem?_drop, Nat.add_sub_cancel' hi, hl]

/-- The two heaps have the same entries. -/
structure Alike (h h' : TimeHeap) : Prop where
  store : h'.store = h.store
  count : ∀ p, h'.array.count (some p) = h.array.count (some p)
  expireAt : ∀ i, h'.expireAt i = h.expireAt i

lemma expireAt_of_none (hl : ∀ l, h.array[i]? = some l → l = none) : h.expireAt i = none := by
  rw [expireAt]
  cases hget : h.array[i]? with
  | none => rfl
  | some l =>
    rw [hl l hget]
    rfl

lemma Sound.alike (hs : h.Sound) (hs' : h'.Sound) (hstore : h'.store = h.store)
    (hcur : h'.curSize = h.curSize) (hentries : h'.entries = h.entries) : h.Alike h' := by
  refine ⟨hstore, fun p => ?_, fun i => ?_⟩
  · rw [← hs.count_entries, ← hs'.count_entries, hentries]
  · by_cases hi : i < h.curSize
    · refine expireAt_congr ?_ hstore
      have hget := congrArg (·[i]?) hentries
      simpa only [entries, List.getElem?_take, hcur, hi, if_true] using hget
    · have hle := not_lt.mp hi
      rw [expireAt_of_none fun l => hs.getElem?_eq hle, expireAt_of_none fun l => hs'.getElem?_eq (hcur ▸ hle)]

/-- Room is made for one more entry. -/
lemma Sound.makeRoom (hs : h.Sound) :
    ∃ h₁, (if h.capacity ≤ h.curSize then h.resize else some h) = some h₁ ∧ h₁.Roomy ∧ h₁.Sound ∧
      h₁.curSize = h.curSize ∧ h.Alike h₁ := by
  split
  next hfull =>
    have hle : h.curSize ≤ h.array.length := hs.within.length ▸ hs.within.curSize
    have hpos := hs.pos
    have hcopy : copy h.array h.curSize (List.replicate (2 * h.capacity) none) =
        some (h.entries ++ List.replicate (2 * h.capacity - h.curSize) none) := by
      rw [copy_spec _ hle (by rw [List.length_replicate]; have := hs.within.curSize; omega), entries,
        List.drop_replicate]
    have hresize : h.resize = some
        { h with
          array := h.entries ++ List.replicate (2 * h.capacity - h.curSize) none
          capacity := 2 * h.capacity } := by
      rw [resize, hcopy]
      rfl
    have hlen : h.entries.length = h.curSize := List.length_take_of_le hle
    obtain ⟨hroomy, -⟩ := hs.within.resize hpos hresize
    have hs₁ : Sound
        { h with
          array := h.entries ++ List.replicate (2 * h.capacity - h.curSize) none
          capacity := 2 * h.capacity } := by
      refine ⟨⟨hroomy.curSize.le, hroomy.length⟩, Nat.mul_pos Nat.two_pos hpos, fun l hl => ?_⟩
      rw [List.drop_left' hlen] at hl
      exact List.eq_of_mem_replicate hl
    exact ⟨_, hresize, hroomy, hs₁, rfl, hs.alike hs₁ rfl rfl (List.take_left' hlen)⟩
  next hroom =>
    exact ⟨h, rfl, ⟨not_le.mp hroom, hs.within.length⟩, hs, rfl, hs.alike hs rfl rfl rfl⟩

/-! ### The loop of `add_timer` -/

/-- The timer is not earlier than the one above the place. -/
def FitsAt (h : TimeHeap) (place timer : ℕ) : Prop :=
  place = 0 ∨ ∃ e t, h.expireAt ((place - 1) / 2) = some e ∧ h.expireOf (some timer) = some t ∧ e ≤ t

lemma Alike.fitsAt (ha : h.Alike h') : h'.FitsAt i timer ↔ h.FitsAt i timer := by
  rw [FitsAt, FitsAt, ha.expireAt, expireOf, expireOf, ha.store]

lemma holeLoop_of_fits (hfits : h.FitsAt hole timer) : holeLoop timer (fuel + 1) h hole = some h := by
  rw [holeLoop]
  split
  next hpos =>
    rcases hfits with rfl | ⟨e, t, he, ht, hle⟩
    · exact absurd hpos (lt_irrefl 0)
    · dsimp only
      rw [he, Option.bind_eq_bind, Option.bind_some, ht, Option.bind_eq_bind, Option.bind_some, if_pos hle]
  next => rfl

/-- A timer that is in the array is still there, but for the one in the hole. -/
lemma count_le_holeLoop (p : ℕ) : ∀ {fuel : ℕ} {h : TimeHeap} {hole : ℕ},
    holeLoop timer fuel h hole = some h' →
      h.array.count (some p) ≤ h'.array.count (some p) + if h.array[hole]? = some (some p) then 1 else 0
  | fuel + 1, h, hole, hh => by
    rw [holeLoop] at hh
    split at hh
    next hpos =>
      obtain ⟨e, -, hh⟩ := Option.bind_eq_some_iff.mp hh
      obtain ⟨t, -, hh⟩ := Option.bind_eq_some_iff.mp hh
      split at hh
      next =>
        cases hh
        exact Nat.le_add_right _ _
      next =>
        obtain ⟨l, hl, hh⟩ := Option.bind_eq_some_iff.mp hh
        obtain ⟨array', hw, hh⟩ := Option.bind_eq_some_iff.mp hh
        have hle := count_le_holeLoop p hh
        rw [write] at hw
        split at hw
        next hlt =>
          cases hw
          have hne : hole ≠ (hole - 1) / 2 := by omega
          rw [List.getElem?_set_ne hne, hl, List.count_set hlt] at hle
          simp only [Option.some_inj, beq_iff_eq, List.getElem?_eq_getElem hlt] at hle ⊢
          omega
        next => cases hw
    next =>
      cases hh
      exact Nat.le_add_right _ _

lemma two_le_count (hne : i ≠ hole) (hi : array[i]? = some (some p)) (hhole : array[hole]? = some (some p)) :
    2 ≤ array.count (some p) := by
  obtain ⟨hlt, heq⟩ := List.getElem?_eq_some_iff.mp hhole
  have hmem : some p ∈ array.set hole none :=
    List.mem_of_getElem? (i := i) (by rw [List.getElem?_set_ne hne.symm, hi])
  have hpos := List.count_pos_iff.mpr hmem
  rw [List.count_set hlt] at hpos
  simp only [heq, beq_self_eq_true, if_true, Option.none_beq_some, Bool.false_eq_true, if_false] at hpos
  omega

/-- The entry above the hole is moved into it. -/
lemma holeLoop_moves (hpos : 0 < hole) (hnot : ¬ h.FitsAt hole timer)
    (hh : holeLoop timer (fuel + 1) h hole = some h') :
    ∃ h₁ p, holeLoop timer fuel h₁ ((hole - 1) / 2) = some h' ∧ h₁.array[hole]? = some (some p) ∧
      h₁.array[(hole - 1) / 2]? = some (some p) := by
  rw [holeLoop, if_pos hpos] at hh
  obtain ⟨e, he, hh⟩ := Option.bind_eq_some_iff.mp hh
  obtain ⟨t, ht, hh⟩ := Option.bind_eq_some_iff.mp hh
  rw [if_neg fun hle => hnot (.inr ⟨e, t, he, ht, hle⟩)] at hh
  obtain ⟨l, hl, hh⟩ := Option.bind_eq_some_iff.mp hh
  obtain ⟨array', hw, hh⟩ := Option.bind_eq_some_iff.mp hh
  obtain ⟨p, rfl⟩ : ∃ p, l = some p := by
    rw [expireAt, hl] at he
    cases l with
    | none => cases he
    | some p => exact ⟨p, rfl⟩
  rw [write] at hw
  split at hw
  next hlt =>
    cases hw
    have hne : hole ≠ (hole - 1) / 2 := by omega
    exact ⟨_, p, hh, List.getElem?_set_self hlt, by rw [List.getElem?_set_ne hne, hl]⟩
  next => cases hw

/-- When the hole holds a timer that is elsewhere as well, so does the place where the loop ends. -/
lemma holeLoop_twice : ∀ {fuel : ℕ} {h : TimeHeap} {hole i p : ℕ}, i ≠ hole →
    h.array[i]? = some (some p) → h.array[hole]? = some (some p) →
      holeLoop timer fuel h hole = some h' → ∃ q, 2 ≤ h'.array.count (some q)
  | fuel + 1, h, hole, i, p, hne, hi, hhole, hh => by
    by_cases hfits : h.FitsAt hole timer
    · rw [holeLoop_of_fits hfits] at hh
      cases hh
      exact ⟨p, two_le_count hne hi hhole⟩
    · have hpos : 0 < hole := Nat.pos_of_ne_zero fun hzero => hfits (.inl hzero)
      obtain ⟨h₁, q, hh, hlow, hhigh⟩ := holeLoop_moves hpos hfits hh
      exact holeLoop_twice (by omega) hlow hhigh hh

/-! ### One call of `add_timer` -/

/-- Behind the hole nothing is written. -/
lemma drop_of_holeLoop : ∀ {fuel : ℕ} {h : TimeHeap} {hole n : ℕ}, hole < n →
    holeLoop timer fuel h hole = some h' → h'.array.drop n = h.array.drop n
  | fuel + 1, h, hole, n, hlt, hh => by
    rw [holeLoop] at hh
    split at hh
    next hpos =>
      obtain ⟨e, -, hh⟩ := Option.bind_eq_some_iff.mp hh
      obtain ⟨t, -, hh⟩ := Option.bind_eq_some_iff.mp hh
      split at hh
      next =>
        cases hh
        rfl
      next =>
        obtain ⟨l, -, hh⟩ := Option.bind_eq_some_iff.mp hh
        obtain ⟨array', hw, hh⟩ := Option.bind_eq_some_iff.mp hh
        have hlow : (hole - 1) / 2 < n := by omega
        rw [drop_of_holeLoop hlow hh]
        rw [write] at hw
        split at hw
        next =>
          cases hw
          exact List.drop_set_of_lt hlt
        next => cases hw
    next =>
      cases hh
      rfl

/-- A timer that fits is forgotten, and the entries stay what they are; with one that does not, a timer is
twice in the array. -/
lemma Sound.addTimer (hs : h.Sound) (timer : ℕ) :
    (h.FitsAt h.curSize timer → ∃ h', h.addTimer (some timer) = some h' ∧ h.Alike h') ∧
    ∀ h', h.addTimer (some timer) = some h' → h'.Sound ∧ h'.curSize = h.curSize + 1 ∧
      (∀ p, h.array.count (some p) ≤ h'.array.count (some p)) ∧
      (¬ h.FitsAt h.curSize timer → ∃ p, 2 ≤ h'.array.count (some p)) := by
  obtain ⟨h₁, hroom, hroomy, hs₁, hcur, halike⟩ := hs.makeRoom
  obtain ⟨g, hg, hgarray, hgcur, hgcap⟩ : ∃ g : TimeHeap, g = { h₁ with curSize := h₁.curSize + 1 } ∧
      g.array = h₁.array ∧ g.curSize = h.curSize + 1 ∧ g.capacity = h₁.capacity :=
    ⟨_, rfl, rfl, hcur ▸ rfl, rfl⟩
  have hgalike : h.Alike g := by
    subst hg
    exact ⟨halike.store, halike.count, halike.expireAt⟩
  have heq : h.addTimer (some timer) = holeLoop timer (h.curSize + 1) g h.curSize := by
    rw [addTimer_eq, hroom, Option.bind_some, hg, hcur]
  have hhole : ∀ l, g.array[h.curSize]? = some l → l = none := by
    rw [hgarray]
    exact fun l => hs₁.getElem?_eq hcur.le
  rw [heq, ← hgalike.fitsAt]
  refine ⟨fun hfits => ⟨g, holeLoop_of_fits hfits, hgalike⟩, fun h' hh => ?_⟩
  have hk := Accesses.keeps_holeLoop timer hh
  refine ⟨⟨⟨?_, ?_⟩, ?_, ?_⟩, hk.curSize.trans hgcur, fun p => ?_, fun hnot => ?_⟩
  · rw [hk.curSize, hk.capacity, hgcur, hgcap, ← hcur]
    exact hroomy.curSize
  · rw [hk.length, hk.capacity, hgarray, hgcap, hroomy.length]
  · rw [hk.capacity, hgcap]
    exact hs₁.pos
  · intro l hl
    rw [hk.curSize, hgcur, drop_of_holeLoop (Nat.lt_succ_self _) hh, hgarray, ← hcur] at hl
    exact hs₁.rest l ((List.drop_sublist_drop_left _ (Nat.le_succ _)).subset hl)
  · have hle := count_le_holeLoop p hh
    have hnone : g.array[h.curSize]? ≠ some (some p) := fun hget => by
      cases hhole _ hget
    rw [if_neg hnone] at hle
    rw [← hgalike.count]
    exact hle
  · have hpos : 0 < h.curSize := Nat.pos_of_ne_zero fun hzero => hnot (.inl hzero)
    obtain ⟨h₂, p, hh₂, hlow, hhigh⟩ := holeLoop_moves hpos hnot hh
    exact holeLoop_twice (by omega) hlow hhigh hh₂

/-! ### A sequence of calls -/

/-- Every timer fits where it is added, as long as the entries stay what they are. -/
def Settles (h : TimeHeap) (adds : List ℕ) : Prop :=
  ∀ k timer, adds[k]? = some timer → h.FitsAt (h.curSize + k) timer

lemma Alike.settles_cons (ha : h.Alike h₁) (hcur : h₁.curSize = h.curSize + 1) :
    h.Settles (timer :: adds) ↔ h.FitsAt h.curSize timer ∧ h₁.Settles adds := by
  have hnext : ∀ k, h₁.curSize + k = h.curSize + (k + 1) := fun k => by omega
  simp only [Settles, hnext, ha.fitsAt]
  constructor
  · exact fun hset => ⟨hset 0 timer rfl, fun k t ht => hset (k + 1) t (by simpa using ht)⟩
  · rintro ⟨hfirst, hrest⟩ k t ht
    cases k with
    | zero =>
      obtain rfl : timer = t := by simpa using ht
      exact hfirst
    | succ k => exact hrest k t (by simpa using ht)

lemma Alike.trans {h₂ : TimeHeap} (ha : h.Alike h₁) (ha' : h₁.Alike h₂) : h.Alike h₂ :=
  ⟨ha'.store.trans ha.store, fun p => (ha'.count p).trans (ha.count p),
    fun i => (ha'.expireAt i).trans (ha.expireAt i)⟩

lemma Sound.addTimers_settles : ∀ {adds : List ℕ} {h : TimeHeap}, h.Sound → h.Settles adds →
    ∃ h', addTimers adds h = some h' ∧ h'.Sound ∧ h.Alike h'
  | [], h, hs, _ => ⟨h, rfl, hs, rfl, fun _ => rfl, fun _ => rfl⟩
  | timer :: adds, h, hs, hsettles => by
    obtain ⟨h₁, hh₁, halike⟩ := (hs.addTimer timer).1 (hsettles 0 timer rfl)
    obtain ⟨hs₁, hcur, -⟩ := (hs.addTimer timer).2 h₁ hh₁
    obtain ⟨h', hh', hs', halike'⟩ := addTimers_settles hs₁ ((halike.settles_cons hcur).mp hsettles).2
    exact ⟨h', by rw [addTimers, hh₁]; exact hh', hs', halike.trans halike'⟩

lemma Sound.count_le_addTimers : ∀ {adds : List ℕ} {h : TimeHeap}, h.Sound →
    addTimers adds h = some h' → h'.Sound ∧ ∀ p, h.array.count (some p) ≤ h'.array.count (some p)
  | [], h, hs, hh => by
    cases hh
    exact ⟨hs, fun _ => le_rfl⟩
  | timer :: adds, h, hs, hh => by
    obtain ⟨h₁, hh₁, hrest⟩ := Option.bind_eq_some_iff.mp hh
    obtain ⟨hs₁, -, hle, -⟩ := (hs.addTimer timer).2 h₁ hh₁
    obtain ⟨hs', hle'⟩ := count_le_addTimers hs₁ hrest
    exact ⟨hs', fun p => (hle p).trans (hle' p)⟩

lemma Sound.addTimers_twice : ∀ {adds : List ℕ} {h : TimeHeap}, h.Sound → ¬ h.Settles adds →
    addTimers adds h = some h' → ∃ p, 2 ≤ h'.array.count (some p)
  | [], h, _, hnot, _ => absurd (fun k timer hk => by simp at hk) hnot
  | timer :: adds, h, hs, hnot, hh => by
    obtain ⟨h₁, hh₁, hrest⟩ := Option.bind_eq_some_iff.mp hh
    obtain ⟨hs₁, hcur, -, htwice⟩ := (hs.addTimer timer).2 h₁ hh₁
    by_cases hfits : h.FitsAt h.curSize timer
    · obtain ⟨h₂, hh₂, halike⟩ := (hs.addTimer timer).1 hfits
      cases hh₁.symm.trans hh₂
      exact addTimers_twice hs₁ (fun hrest => hnot ((halike.settles_cons hcur).mpr ⟨hfits, hrest⟩)) hrest
    · obtain ⟨p, hp⟩ := htwice hfits
      exact ⟨p, hp.trans ((hs₁.count_le_addTimers hrest).2 p)⟩

/-! ### From the constructor to the destructor -/

lemma Ctor.rest (hgives : c.Gives timers) (hlive : ∀ p ∈ timers, ∃ t, s.cell p = some t)
    (hrun : c.run s = some (.ok h)) : (∀ l ∈ h.array.drop h.curSize, l = none) ∧ h.store = s := by
  cases c with
  | ofCapacity cap =>
    cases hrun
    exact ⟨fun l hl => List.eq_of_mem_replicate ((List.drop_sublist _ _).subset hl), rfl⟩
  | ofArray a size capacity =>
    obtain ⟨hle, rfl, htake⟩ := hgives
    obtain ⟨h₀, hh₀, hs⟩ := ofArray_spec htake hle hlive
    cases hh₀.symm.trans (show TimeHeap.ofArray s a timers.length capacity = _ from hrun)
    refine ⟨fun l hl => ?_, hs.store⟩
    rw [hs.curSize, show (filled s timers capacity).curSize = timers.length from rfl, hs.drop_eq] at hl
    exact List.eq_of_mem_replicate hl

/-- Without room there is no room for a timer, and `resize` makes none. -/
lemma addTimers_no_room : ∀ {adds : List ℕ} {h : TimeHeap}, h.array = [] → h.capacity = 0 →
    addTimers adds h = some h' → h'.array = [] ∧ h'.curSize = h.curSize + adds.length
  | [], h, harray, _, hh => by
    cases hh
    exact ⟨harray, rfl⟩
  | timer :: adds, h, harray, hcap, hh => by
    obtain ⟨h₁, hh₁, hrest⟩ := Option.bind_eq_some_iff.mp hh
    rw [addTimer_eq, if_pos (hcap ▸ Nat.zero_le _)] at hh₁
    obtain ⟨h₀, hresize, hloop⟩ := Option.bind_eq_some_iff.mp hh₁
    obtain ⟨temp, hcopy, heq⟩ := Option.bind_eq_some_iff.mp hresize
    cases heq
    have hk := Accesses.keeps_holeLoop timer hloop
    have hlen : h₁.array.length = 0 := by
      rw [hk.length]
      show temp.length = 0
      rw [length_of_copy hcopy, List.length_replicate, hcap]
    have hcap₁ : h₁.capacity = 0 := by
      rw [hk.capacity]
      show 2 * h.capacity = 0
      rw [hcap]
    obtain ⟨harray', hcur⟩ := addTimers_no_room (List.length_eq_zero_iff.mp hlen) hcap₁ hrest
    refine ⟨harray', ?_⟩
    rw [hcur, hk.curSize, List.length_cons]
    show h.curSize + 1 + adds.length = h.curSize + (adds.length + 1)
    omega

/-- From a constructor over any `add_timer` calls to the destructor nothing undefined is done if and only
if there is room and each timer is added at the root, which is below nobody, or below one of the
constructor's that is not later; then the destructor deletes the timers that the constructor was given,
and of those that were added none. -/
theorem addTimers_destroy_iff (hgives : c.Gives timers) (hnd : timers.Nodup)
    (hlive : ∀ p ∈ timers, ∃ t, s.cell p = some t) (hrun : c.run s = some (.ok h)) :
    ((∃ h' s', addTimers adds h = some h' ∧ h'.destroy = some s') ↔
      (0 < c.capacity ∨ adds = []) ∧ h.Settles adds) ∧
    ∀ h' s', addTimers adds h = some h' → h'.destroy = some s' →
      ∀ p, s'.cell p = if p ∈ timers then none else s.cell p := by
  obtain ⟨h₀, hh₀, hheap, -⟩ := Ctor.run_spec hgives hnd hlive
  cases hh₀.symm.trans hrun
  obtain ⟨hwithin, hcap⟩ := Ctor.run_room hrun
  obtain ⟨hrest, hstore⟩ := Ctor.rest hgives hlive hrun
  rcases Nat.eq_zero_or_pos c.capacity with hzero | hpos
  · obtain ⟨s₀, hs₀, hcell⟩ := hheap.destroyed
    have hnil : h.array = [] := List.length_eq_zero_iff.mp (hwithin.length.trans (hcap.trans hzero))
    have hempty : ∀ h' s', addTimers adds h = some h' → h'.destroy = some s' → adds = [] := by
      intro h' s' hh' hs'
      obtain ⟨harray, hcur⟩ := addTimers_no_room hnil (hcap.trans hzero) hh'
      have hle := le_length_of_destroyLoop hs'
      rw [harray, hcur, List.length_nil] at hle
      exact List.length_eq_zero_iff.mp (by omega)
    refine ⟨⟨?_, ?_⟩, ?_⟩
    · rintro ⟨h', s', hh', hs'⟩
      obtain rfl := hempty h' s' hh' hs'
      exact ⟨.inr rfl, fun k timer hk => by simp at hk⟩
    · rintro ⟨hroom, -⟩
      obtain rfl := hroom.resolve_left (Nat.not_lt.mpr hzero.le)
      exact ⟨h, s₀, rfl, hs₀⟩
    · intro h' s' hh' hs'
      obtain rfl := hempty h' s' hh' hs'
      cases hh'
      cases hs₀.symm.trans hs'
      rw [hstore] at hcell
      exact hcell
  · have hs : h.Sound := ⟨hwithin, hcap ▸ hpos, hrest⟩
    have hmem : ∀ p, some p ∈ h.entries ↔ p ∈ timers := fun p => by
      rw [entries, hheap.entries.mem_iff]
      simp
    have hend : ∀ h', h'.Sound → h.Alike h' → h'.store.Freeable h'.entries ∧
        ∀ p, some p ∈ h'.entries ↔ p ∈ timers := by
      intro h' hs' halike
      have hcount : ∀ p, h'.entries.count (some p) = h.entries.count (some p) := fun p => by
        rw [hs'.count_entries, hs.count_entries, halike.count]
      have hsame : ∀ p, some p ∈ h'.entries ↔ p ∈ timers := fun p => by
        rw [← hmem, ← List.count_pos_iff, hcount, List.count_pos_iff]
      refine ⟨⟨fun p hp => ?_, fun p => ?_⟩, hsame⟩
      · obtain ⟨t, ht⟩ := hlive p ((hsame p).mp hp)
        rw [halike.store, hstore, ht]
        exact Option.some_ne_none t
      · rw [hcount, entries, hheap.entries.count_eq]
        exact List.nodup_iff_count_le_one.mp (hnd.map (Option.some_injective ℕ)) _
    have hsettles : ∀ h' s', addTimers adds h = some h' → h'.destroy = some s' → h.Settles adds := by
      intro h' s' hh' hs'
      by_contra hnot
      obtain ⟨p, hp⟩ := hs.addTimers_twice hnot hh'
      have hs₁ := (hs.count_le_addTimers hh').1
      have hle := (destroy_iff.mp ⟨s', hs'⟩).2.once p
      rw [hs₁.count_entries] at hle
      omega
    refine ⟨⟨?_, ?_⟩, ?_⟩
    · rintro ⟨h', s', hh', hs'⟩
      exact ⟨.inl hpos, hsettles h' s' hh' hs'⟩
    · rintro ⟨-, hset⟩
      obtain ⟨h', hh', hs', halike⟩ := hs.addTimers_settles hset
      obtain ⟨s', hdestroy⟩ := destroy_iff.mpr
        ⟨hs'.within.length ▸ hs'.within.curSize, (hend h' hs' halike).1⟩
      exact ⟨h', s', hh', hdestroy⟩
    · intro h' s' hh' hdestroy p
      obtain ⟨h₁, hh₁, hs₁, halike⟩ := hs.addTimers_settles (hsettles h' s' hh' hdestroy)
      cases hh₁.symm.trans hh'
      have hle := le_length_of_destroyLoop hdestroy
      rw [destroy, destroyLoop_eq hle] at hdestroy
      rw [Store.freeAll_cell hdestroy, halike.store, hstore]
      simp only [show (some p ∈ h'.array.take h'.curSize ↔ p ∈ timers) from (hend h' hs₁ halike).2 p]

/-- A timer for 5 and one for 9 that is added to it. -/
theorem addTimers_destroy_two :
    ∃ h h' s', (Ctor.ofArray [some 0] 1 1).run ((Store.empty.new ⟨5⟩).new ⟨9⟩) = some (.ok h) ∧
      addTimers [1] h = some h' ∧ h'.destroy = some s' ∧ s'.cell 0 = none ∧ s'.cell 1 ≠ none := by
  have hlive : ∀ p ∈ [0], ∃ t, ((Store.empty.new (⟨5⟩ : HeapTimer)).new ⟨9⟩).cell p = some t := by
    simp [Store.empty]
  have hgives : (Ctor.ofArray [some 0] 1 1).Gives [0] := ⟨le_rfl, rfl, rfl⟩
  have hsettles : Settles ⟨(Store.empty.new ⟨5⟩).new ⟨9⟩, [some 0], 1, 1⟩ [1] := by
    intro k timer hk
    cases k with
    | zero =>
      obtain rfl : 1 = timer := by simpa using hk
      exact .inr ⟨5, 9, rfl, rfl, by decide⟩
    | succ k => simp at hk
  obtain ⟨h', s', hh', hs'⟩ := (addTimers_destroy_iff hgives (List.nodup_singleton 0) hlive rfl).1.mpr
    ⟨.inl Nat.one_pos, hsettles⟩
  have hcell := (addTimers_destroy_iff hgives (List.nodup_singleton 0) hlive rfl).2 h' s' hh' hs'
  refine ⟨_, h', s', rfl, hh', hs', by rw [hcell]; rfl, ?_⟩
  rw [hcell]
  exact Option.some_ne_none _

end TimeHeap

end LinuxServer
