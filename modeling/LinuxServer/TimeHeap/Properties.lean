import LinuxServer.Core.MinHeap
import LinuxServer.TimeHeap.Basic

/-!
# What the operations of the time heap do

`percolate_down` puts a subtree in order, so the second constructor, which calls it for every
place that has children, builds a heap. `add_timer` moves entries down to make room and never
stores the timer.
-/

namespace LinuxServer

open Core Core.MinHeap

namespace TimeHeap

variable {h h' : TimeHeap} {i n r hole child : ℕ} {l temp : Link} {e : ℤ} {array : List Link}

/-- The `expire` at `i`, for places that have one. -/
def key (h : TimeHeap) (i : ℕ) : ℤ := (h.expireAt i).getD 0

/-- The first `curSize` entries are live timers. -/
def Full (h : TimeHeap) : Prop := ∀ i < h.curSize, ∃ e, h.expireAt i = some e

/-- Those below `r` are. -/
def FullUnder (h : TimeHeap) (r : ℕ) : Prop :=
  ∀ i, Under r i → i < h.curSize → ∃ e, h.expireAt i = some e

/-- The heap with `temp` assigned to the hole. -/
def put (h : TimeHeap) (hole : ℕ) (temp : Link) : TimeHeap :=
  { h with array := h.array.set hole temp }

lemma Full.under (hfull : h.Full) : h.FullUnder r := fun i _ hi => hfull i hi

lemma write_of_lt (hi : i < array.length) : write array i l = some (array.set i l) := if_pos hi

lemma key_of_expireAt (he : h.expireAt i = some e) : h.key i = e := by rw [key, he]; rfl

lemma lt_length_of_expireAt (he : h.expireAt i = some e) : i < h.array.length := by
  obtain ⟨l, hl, -⟩ := Option.bind_eq_some_iff.mp he
  exact (List.getElem?_eq_some_iff.mp hl).1

lemma expireAt_congr (ha : h'.array[i]? = h.array[r]?) (hs : h'.store = h.store) :
    h'.expireAt i = h.expireAt r := by
  simp only [expireAt, expireOf, hs, ha]

lemma expireAt_put_of_ne (hne : hole ≠ i) : (h.put hole temp).expireAt i = h.expireAt i :=
  expireAt_congr (List.getElem?_set_ne hne) rfl

lemma expireAt_put_self (hlt : hole < h.array.length) :
    (h.put hole temp).expireAt hole = h.expireOf temp := by
  simp [expireAt, expireOf, put, hlt]

/-! ### `percolate_down` -/

/-- `h'` is `h` with its entries below `r` rearranged into order. -/
structure Sifted (h h' : TimeHeap) (r : ℕ) : Prop where
  rearranged : Rearranged (fun i => Under r i ∧ i < h.curSize) h.array h'.array
  ordered : Ordered h'.key h.curSize r
  store : h'.store = h.store
  capacity : h'.capacity = h.capacity
  curSize : h'.curSize = h.curSize

/-- The child that is chosen is least. -/
lemma lesserChild_spec (hlt : 2 * hole + 1 < h.curSize)
    (hfull : ∀ d, IsChild d hole → d < h.curSize → ∃ e, h.expireAt d = some e) :
    ∃ c, h.lesserChild (2 * hole + 1) = some c ∧ IsChild c hole ∧ c < h.curSize ∧
      ∀ d, IsChild d hole → d < h.curSize → h.key c ≤ h.key d := by
  obtain ⟨e₁, h₁⟩ := hfull _ (.inl rfl) hlt
  rw [lesserChild]
  split
  next hlt₂ =>
    obtain ⟨e₂, h₂⟩ := hfull _ (.inr rfl) hlt₂
    simp only [h₁, h₂, Option.bind_eq_bind, Option.bind_some, show 2 * hole + 1 + 1 = 2 * hole + 2
      from rfl]
    split
    next hless =>
      refine ⟨_, rfl, .inr rfl, hlt₂, ?_⟩
      rintro d (rfl | rfl) -
      · rw [key_of_expireAt h₁, key_of_expireAt h₂]
        exact hless.le
      · exact le_rfl
    next hless =>
      refine ⟨_, rfl, .inl rfl, hlt, ?_⟩
      rintro d (rfl | rfl) -
      · exact le_rfl
      · rw [key_of_expireAt h₁, key_of_expireAt h₂]
        exact not_lt.mp hless
  next hlast =>
    refine ⟨_, rfl, .inl rfl, hlt, ?_⟩
    rintro d (rfl | rfl) hd
    · exact le_rfl
    · omega

/-- The entry of the child goes up into the hole, and `temp` waits for the child's place. -/
lemma getElem?_put_put (hne : hole ≠ child) (hlen : hole < h.array.length)
    (hl : h.array[child]? = some l) (k : ℕ) : ((h.put hole l).put child temp).array[k]? =
      (h.put hole temp).array[Equiv.swap hole child k]? :=
  getElem?_set_set hne hlen hl k

lemma key_put_put (hne : hole ≠ child) (hlen : hole < h.array.length)
    (hl : h.array[child]? = some l) : ((h.put hole l).put child temp).key =
      (h.put hole temp).key ∘ Equiv.swap hole child :=
  funext fun k => congrArg (Option.getD · 0) (expireAt_congr (getElem?_put_put hne hlen hl k) rfl)

lemma FullUnder.put_put (hput : (h.put hole temp).FullUnder r) (hne : hole ≠ child)
    (hlen : hole < h.array.length) (hl : h.array[child]? = some l) (hhole : Under r hole)
    (hlt : hole < h.curSize) (hchild : Under r child) (hchildlt : child < h.curSize) :
    ((h.put hole l).put child temp).FullUnder r := by
  intro k hku hk
  rw [expireAt_congr (getElem?_put_put hne hlen hl k) rfl]
  by_cases hkh : k = hole
  · rw [hkh, Equiv.swap_apply_left]
    exact hput child hchild hchildlt
  · by_cases hkc : k = child
    · rw [hkc, Equiv.swap_apply_right]
      exact hput hole hhole hlt
    · rw [Equiv.swap_apply_of_ne_of_ne hkh hkc]
      exact hput k hku hk

/-- The subtree is still full with the entry of a child in the hole as well. -/
lemma FullUnder.put_child (hfull : h.FullUnder r) (hlen : hole < h.array.length)
    (hl : h.array[child]? = some l) (hchild : Under r child) (hlt : child < h.curSize) :
    (h.put hole l).FullUnder r := by
  intro k hku hk
  by_cases hkh : k = hole
  · subst hkh
    have hgetk : (h.put k l).array[k]? = h.array[child]? := by simp [put, hlen, hl]
    rw [expireAt_congr hgetk rfl]
    exact hfull child hchild hlt
  · rw [expireAt_put_of_ne (Ne.symm hkh)]
    exact hfull k hku hk

/-- The loop with `temp` in the hole: what it takes to put the subtree of `r` in order. -/
theorem percolateLoop_spec (temp : Link) : ∀ (fuel : ℕ) (h : TimeHeap) (hole : ℕ),
    h.curSize ≤ hole + fuel → hole < h.curSize → h.FullUnder r → (h.put hole temp).FullUnder r →
    OrderedBut (h.put hole temp).key h.curSize r hole →
    ∃ h', percolateLoop temp fuel h hole = some h' ∧ (h.put hole temp).Sifted h' r
  | 0, h, hole, hfuel, hlt, _, _, _ => absurd hfuel (by omega)
  | fuel + 1, h, hole, hfuel, hlt, hfull, hput, hord => by
    have hlen : hole < h.array.length := by
      obtain ⟨e, he⟩ := hfull hole hord.under hlt
      exact lt_length_of_expireAt he
    have hkey : ∀ d, IsChild d hole → (h.put hole temp).key d = h.key d := by
      intro d hd
      rw [key, key, expireAt_put_of_ne hd.lt.ne]
    obtain ⟨t, ht⟩ := hput hole hord.under hlt
    have hkeyself := key_of_expireAt ht
    rw [expireAt_put_self hlen] at ht
    have hdone : (∀ d, IsChild d hole → d < h.curSize → t ≤ h.key d) →
        (h.put hole temp).Sifted (h.put hole temp) r := fun hle =>
      ⟨.refl, hord.close fun d hd hdn => by rw [hkeyself, hkey d hd]; exact hle d hd hdn, rfl, rfl,
        rfl⟩
    rw [percolateLoop]
    split
    next hchild =>
      obtain ⟨c, hc, hisc, hcn, hleast⟩ := lesserChild_spec hchild fun d hd hdn =>
        hfull d (hord.under.child hd) hdn
      have hunder := hord.under.child hisc
      obtain ⟨e, he⟩ := hfull c hunder hcn
      simp only [hc, he, ht, Option.bind_eq_bind, Option.bind_some]
      split
      next hless =>
        obtain ⟨l, hl, -⟩ := Option.bind_eq_some_iff.mp he
        simp only [hl, write_of_lt hlen, Option.bind_some]
        have hord' : OrderedBut ((h.put hole l).put c temp).key h.curSize r c := by
          rw [key_put_put hisc.lt.ne hlen hl]
          apply hord.step hisc hcn
          · rw [hkey c hisc, key_of_expireAt he, hkeyself]
            exact hless.le
          · intro d hd hdn
            rw [hkey c hisc, hkey d hd]
            exact hleast d hd hdn
        have hcl := hisc.lt
        obtain ⟨h', hh', hs⟩ := percolateLoop_spec temp fuel (h.put hole l) c
          (by show h.curSize ≤ _; omega) hcn (hfull.put_child hlen hl hunder hcn)
          (hput.put_put hisc.lt.ne hlen hl hord.under hlt hunder hcn) hord'
        refine ⟨h', hh', ?_, hs.ordered, hs.store, hs.capacity, hs.curSize⟩
        exact (Rearranged.swap (P := fun i => Under r i ∧ i < h.curSize) ⟨hord.under, hlt⟩
          ⟨hunder, hcn⟩ (getElem?_put_put hisc.lt.ne hlen hl)).trans hs.rearranged
      next hless =>
        rw [write_of_lt hlen]
        refine ⟨_, rfl, hdone fun d hd hdn => (not_lt.mp hless).trans ?_⟩
        rw [← key_of_expireAt he]
        exact hleast d hd hdn
    next hchild =>
      rw [write_of_lt hlen]
      refine ⟨_, rfl, hdone fun d hd hdn => absurd hdn ?_⟩
      rcases hd with rfl | rfl <;> omega

/-- `percolate_down(hole)` puts the subtree of `hole` in order when those of its children are. -/
theorem percolateDown_spec (hlt : hole < h.curSize) (hfull : h.FullUnder hole)
    (h₁ : Ordered h.key h.curSize (2 * hole + 1)) (h₂ : Ordered h.key h.curSize (2 * hole + 2)) :
    ∃ h', h.percolateDown hole = some h' ∧ h.Sifted h' hole := by
  obtain ⟨e, he⟩ := hfull hole .root hlt
  obtain ⟨temp, htemp, -⟩ := Option.bind_eq_some_iff.mp he
  have hput : h.put hole temp = h := by
    obtain ⟨hlen, rfl⟩ := List.getElem?_eq_some_iff.mp htemp
    rw [put, List.set_getElem_self]
  have hspec := percolateLoop_spec (r := hole) temp (h.curSize + 1) h hole (by omega) hlt hfull
    (hput.symm ▸ hfull) (hput.symm ▸ .of_children h₁ h₂)
  rw [hput] at hspec
  rw [percolateDown, htemp, Option.bind_eq_bind, Option.bind_some]
  exact hspec

lemma Sifted.expireAt_of_not (hs : h.Sifted h' r) (hi : ¬ Under r i) :
    h'.expireAt i = h.expireAt i :=
  expireAt_congr (hs.rearranged.getElem?_of_not fun hP => hi hP.1) hs.store

lemma Sifted.full (hs : h.Sifted h' r) (hfull : h.Full) : h'.Full := by
  intro i hi
  rw [hs.curSize] at hi
  by_cases hP : Under r i ∧ i < h.curSize
  · obtain ⟨j, hj, hget⟩ := hs.rearranged.exists_getElem? hP
    rw [expireAt_congr hget hs.store]
    exact hfull j hj.2
  · rw [expireAt_congr (hs.rearranged.getElem?_of_not hP) hs.store]
    exact hfull i hi

/-! ### The constructors -/

/-- The subtrees behind `i` in order, the loop puts those from `0` on in order. -/
theorem buildLoop_spec : ∀ (i : ℕ) (h : TimeHeap), i < h.curSize → h.Full →
    (∀ j, i < j → Ordered h.key h.curSize j) → ∃ h', buildLoop i h = some h' ∧ h.Sifted h' 0
  | 0, h, hi, hfull, hord => percolateDown_spec hi hfull.under (hord _ (by omega)) (hord _ (by omega))
  | i + 1, h, hi, hfull, hord => by
    obtain ⟨h₁, hh₁, hs⟩ :=
      percolateDown_spec hi hfull.under (hord _ (by omega)) (hord _ (by omega))
    have hord' : ∀ j, i + 1 ≤ j → Ordered h₁.key h.curSize j := hs.ordered.extend hord fun j hj => by
      rw [key, key, hs.expireAt_of_not hj]
    obtain ⟨h', hh', hs'⟩ := buildLoop_spec i h₁ (by rw [hs.curSize]; omega) (hs.full hfull)
      fun j hj => hs.curSize.symm ▸ hord' j hj
    rw [buildLoop, hh₁, Option.bind_eq_bind, Option.bind_some]
    refine ⟨h', hh', ?_, hs.curSize ▸ hs'.ordered, hs'.store.trans hs.store,
      hs'.capacity.trans hs.capacity, hs'.curSize.trans hs.curSize⟩
    have hlast := hs'.rearranged
    rw [hs.curSize] at hlast
    exact (hs.rearranged.mono fun j hj => ⟨under_zero j, hj.2⟩).trans hlast

lemma copy_spec {src dst : List Link} : ∀ n, n ≤ src.length → n ≤ dst.length →
    copy src n dst = some (src.take n ++ dst.drop n)
  | 0, _, _ => by simp [copy]
  | n + 1, hsrc, hdst => by
    have hlen : n < (src.take n ++ dst.drop n).length := by simp; omega
    rw [copy, copy_spec n (by omega) (by omega), Option.bind_eq_bind, Option.bind_some,
      List.getElem?_eq_getElem hsrc, Option.bind_eq_bind, Option.bind_some, write_of_lt hlen]
    congr 1
    rw [List.set_append_right _ _ (by simp)]
    have htake : (src.take n).length = n := by simp; omega
    rw [htake, Nat.sub_self, List.take_add_one, List.getElem?_eq_getElem hsrc, List.append_assoc,
      List.drop_eq_getElem_cons hdst]
    rfl

variable {s : Store HeapTimer} {timers : List ℕ} {capacity : ℕ}

/-- What the second constructor has in the array before its last loop. -/
def filled (s : Store HeapTimer) (timers : List ℕ) (capacity : ℕ) : TimeHeap where
  store := s
  array := timers.map some ++ List.replicate (capacity - timers.length) none
  capacity := capacity
  curSize := timers.length

lemma take_filled : (filled s timers capacity).array.take timers.length = timers.map some :=
  List.take_left' (List.length_map _)

lemma drop_filled : (filled s timers capacity).array.drop timers.length =
    List.replicate (capacity - timers.length) none :=
  List.drop_left' (List.length_map _)

lemma copy_filled (htake : array.take timers.length = timers.map some)
    (hcap : timers.length ≤ capacity) :
    copy array timers.length (List.replicate capacity none) =
      some (filled s timers capacity).array := by
  have hsrc : timers.length ≤ array.length := by
    have hlen := congrArg List.length htake
    rw [List.length_take, List.length_map] at hlen
    omega
  rw [copy_spec _ hsrc (by rwa [List.length_replicate]), htake, List.drop_replicate]
  rfl

lemma full_filled (hlive : ∀ p ∈ timers, ∃ t, s.cell p = some t) :
    (filled s timers capacity).Full := by
  intro i hi
  have hi' : i < timers.length := hi
  obtain ⟨t, ht⟩ := hlive timers[i] (List.getElem_mem hi')
  have hget : (filled s timers capacity).array[i]? = some (some timers[i]) := by
    simp [filled, List.getElem?_append_left, hi']
  have ht' : (filled s timers capacity).store.cell timers[i] = some t := ht
  exact ⟨t.expire, by simp [expireAt, expireOf, hget, ht']⟩

/-- The second constructor puts the timers in order. -/
theorem ofArray_spec (htake : array.take timers.length = timers.map some)
    (hcap : timers.length ≤ capacity) (hlive : ∀ p ∈ timers, ∃ t, s.cell p = some t) :
    ∃ h, ofArray s array timers.length capacity = some (.ok h) ∧
      (filled s timers capacity).Sifted h 0 := by
  rw [ofArray, if_neg (not_lt.mpr hcap)]
  split
  next hsize =>
    have hlt : (timers.length - 1) / 2 < (filled s timers capacity).curSize := by
      show _ < timers.length
      omega
    obtain ⟨h, hh, hs⟩ := buildLoop_spec _ _ hlt (full_filled hlive) fun j hj =>
      ordered_of_le (by show timers.length ≤ _; omega)
    refine ⟨h, ?_, hs⟩
    dsimp only
    rw [copy_filled (s := s) htake hcap, Option.bind_eq_bind, Option.bind_some]
    exact congrArg (Option.bind · _) hh
  next hsize =>
    obtain rfl := List.length_eq_zero_iff.mp (not_not.mp hsize)
    exact ⟨_, rfl, .refl, ordered_of_le (Nat.zero_le _), rfl, rfl, rfl⟩

lemma Sifted.perm_take (hs : (filled s timers capacity).Sifted h 0) :
    (h.array.take timers.length).Perm (timers.map some) := by
  have hperm := (hs.rearranged.take fun _ hi => hi.2).perm
  rwa [show (filled s timers capacity).curSize = timers.length from rfl, take_filled] at hperm

lemma Sifted.drop_eq (hs : (filled s timers capacity).Sifted h 0) :
    h.array.drop timers.length = List.replicate (capacity - timers.length) none :=
  (hs.rearranged.drop fun _ hi => hi.2).trans drop_filled

/-! ### Heaps of timers -/

/-- The first `curSize` entries are the timers, each once, in heap order; the first one is least,
and the destructor deletes each of them and nothing else. -/
structure IsHeapOf (h : TimeHeap) (timers : List ℕ) : Prop where
  curSize : h.curSize = timers.length
  entries : (h.array.take h.curSize).Perm (timers.map some)
  ordered : ∀ i, 0 < i → i < h.curSize →
    ∃ e e', h.expireAt ((i - 1) / 2) = some e ∧ h.expireAt i = some e' ∧ e ≤ e'
  least : timers ≠ [] → ∃ p ∈ timers, h.array[0]? = some (some p) ∧
    ∀ q ∈ timers, ∃ e e', h.expireOf (some p) = some e ∧ h.expireOf (some q) = some e' ∧ e ≤ e'
  destroyed : ∃ s, h.destroy = some s ∧
    ∀ p, s.cell p = if p ∈ timers then none else h.store.cell p

/-- The destructor's loop frees the first `n` entries, which name different timers. -/
lemma destroyLoop_spec (hperm : (h.array.take h.curSize).Perm (timers.map some))
    (hnd : timers.Nodup) (hcur : h.curSize = timers.length)
    (hlive : ∀ p ∈ timers, ∃ t, h.store.cell p = some t) : ∀ n, n ≤ h.curSize →
    ∃ s, h.destroyLoop n = some s ∧
      ∀ p, s.cell p = if some p ∈ h.array.take n then none else h.store.cell p
  | 0, _ => ⟨h.store, rfl, fun p => by simp⟩
  | n + 1, hn => by
    obtain ⟨s, hs, hcell⟩ := destroyLoop_spec hperm hnd hcur hlive n (by omega)
    have hlen := hperm.length_eq
    simp only [List.length_take, List.length_map] at hlen
    have hlt : n < h.array.length := by omega
    have hnd' : (h.array.take h.curSize).Nodup :=
      hperm.nodup_iff.mpr (hnd.map (Option.some_injective ℕ))
    have htake : h.array.take (n + 1) = h.array.take n ++ [h.array[n]] := by
      rw [List.take_add_one, List.getElem?_eq_getElem hlt]
      rfl
    have hsub : (h.array.take (n + 1)).Sublist (h.array.take h.curSize) :=
      List.take_sublist_take_left hn
    obtain ⟨p, hp, hpn⟩ := List.mem_map.mp (hperm.subset (hsub.subset (by
      rw [htake]
      exact List.mem_append_right _ List.mem_cons_self : h.array[n] ∈ _)))
    have hnot : some p ∉ h.array.take n := by
      intro hmem
      have hnd₁ := hnd'.sublist hsub
      rw [htake, ← hpn] at hnd₁
      exact (List.nodup_append.mp hnd₁).2.2 _ hmem _ List.mem_cons_self rfl
    obtain ⟨t, ht⟩ := hlive p hp
    have hcell' : s.cell p = some t := by rw [hcell, if_neg hnot, ht]
    refine ⟨s.delete p, ?_, ?_⟩
    · rw [destroyLoop, hs, Option.bind_eq_bind, Option.bind_some, List.getElem?_eq_getElem hlt,
        ← hpn]
      exact s.free_some p hcell'
    · intro q
      rw [htake, ← hpn, Store.delete_cell, hcell]
      by_cases hq : q = p <;> simp [hq]

/-- A full heap in order, of distinct timers. -/
theorem IsHeapOf.of_ordered (hord : Ordered h.key h.curSize 0) (hfull : h.Full)
    (hcur : h.curSize = timers.length) (hperm : (h.array.take h.curSize).Perm (timers.map some))
    (hnd : timers.Nodup) : h.IsHeapOf timers := by
  have hmem : ∀ p, p ∈ timers ↔ ∃ i, i < h.curSize ∧ h.array[i]? = some (some p) := by
    intro p
    have hiff : some p ∈ h.array.take h.curSize ↔ some p ∈ timers.map some := hperm.mem_iff
    rw [List.mem_take_iff_getElem] at hiff
    simp only [List.mem_map, Option.some.injEq, exists_eq_right] at hiff
    rw [← hiff]
    constructor
    · rintro ⟨i, hi, heq⟩
      exact ⟨i, by omega, List.getElem?_eq_some_iff.mpr ⟨by omega, heq⟩⟩
    · rintro ⟨i, hi, heq⟩
      obtain ⟨hlt, heq⟩ := List.getElem?_eq_some_iff.mp heq
      exact ⟨i, by omega, heq⟩
  have hexpire : ∀ i p e, h.array[i]? = some (some p) → h.expireAt i = some e →
      h.expireOf (some p) = some e := by
    intro i p e hi he
    rwa [expireAt, hi, Option.bind_eq_bind, Option.bind_some] at he
  refine ⟨hcur, hperm, ?_, ?_, ?_⟩
  · intro i hi hin
    obtain ⟨e', he'⟩ := hfull i hin
    obtain ⟨e, he⟩ := hfull ((i - 1) / 2) (by omega)
    refine ⟨e, e', he, he', ?_⟩
    have hle := ordered_zero.mp hord i hi hin
    rwa [key_of_expireAt he, key_of_expireAt he'] at hle
  · intro hne
    have hpos : 0 < h.curSize := hcur ▸ List.length_pos_iff.mpr hne
    obtain ⟨e, he⟩ := hfull 0 hpos
    obtain ⟨l, hl, -⟩ := Option.bind_eq_some_iff.mp he
    have hlmem : l ∈ h.array.take h.curSize := by
      obtain ⟨hlt, rfl⟩ := List.getElem?_eq_some_iff.mp hl
      exact List.mem_take_iff_getElem.mpr ⟨0, by omega, rfl⟩
    obtain ⟨p, hp, rfl⟩ := List.mem_map.mp (hperm.subset hlmem)
    refine ⟨p, hp, hl, ?_⟩
    intro q hq
    obtain ⟨i, hi, hqi⟩ := (hmem q).mp hq
    obtain ⟨e', he'⟩ := hfull i hi
    refine ⟨e, e', hexpire 0 p e hl he, hexpire i q e' hqi he', ?_⟩
    have hle := hord.root_le (under_zero i) hi
    rwa [key_of_expireAt he, key_of_expireAt he'] at hle
  · have hlive : ∀ p ∈ timers, ∃ t, h.store.cell p = some t := by
      intro p hp
      obtain ⟨i, hi, hpi⟩ := (hmem p).mp hp
      obtain ⟨e, he⟩ := hfull i hi
      obtain ⟨t, ht, -⟩ := Option.map_eq_some_iff.mp (hexpire i p e hpi he)
      exact ⟨t, ht⟩
    obtain ⟨s, hs, hcell⟩ := destroyLoop_spec hperm hnd hcur hlive h.curSize le_rfl
    refine ⟨s, hs, ?_⟩
    intro p
    rw [hcell]
    simp only [hperm.mem_iff, List.mem_map, Option.some.injEq, exists_eq_right]

end TimeHeap

end LinuxServer
