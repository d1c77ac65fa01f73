import LinuxServer.Core.CString

/-!
# Lines of a byte stream

A line ends with a CR LF pair; a CR or an LF that is not in a pair is an error. `scan` looks for the
end of the first line. What it finds does not change when more bytes arrive, and when it finds
neither an end nor an error, the search can go on from the bytes it holds back: none, or a CR
that may be the first byte of a pair.
-/

namespace Core

/-- Bytes without CR and LF. -/
def Plain (a : Bytes) : Prop := ∀ c ∈ a, c ≠ cr ∧ c ≠ lf

inductive Scan
  /-- The bytes `a` are seen, and `held` is not decided. -/
  | more (a held : Bytes)
  /-- An error at the front of `rest`. -/
  | bad (a rest : Bytes)
  | line (a rest : Bytes)

namespace Scan

/-- The scan of a stream with the bytes `p` in front. -/
def prepend (p : Bytes) : Scan → Scan
  | .more a held => .more (p ++ a) held
  | .bad a rest => .bad (p ++ a) rest
  | .line a rest => .line (p ++ a) rest

@[simp] lemma prepend_nil (s : Scan) : s.prepend [] = s := by
  cases s <;> rfl

@[simp] lemma prepend_prepend (p q : Bytes) (s : Scan) :
    (s.prepend q).prepend p = s.prepend (p ++ q) := by
  cases s <;> simp [prepend]

end Scan

/-- The scan behind a CR. -/
def scanCr : Bytes → Scan
  | [] => .more [] [cr]
  | c :: cs => if c = lf then .line [] cs else .bad [] (cr :: c :: cs)

def scan : Bytes → Scan
  | [] => .more [] []
  | c :: cs =>
    if c = cr then scanCr cs
    else if c = lf then .bad [] (c :: cs)
    else (scan cs).prepend [c]

variable {a b p q x y held rest : Bytes} {c : UInt8}

lemma scan_cons_plain (h₁ : c ≠ cr) (h₂ : c ≠ lf) : scan (c :: x) = (scan x).prepend [c] := by
  rw [scan, if_neg h₁, if_neg h₂]

@[simp] lemma plain_nil : Plain [] := by simp [Plain]

lemma plain_cons : Plain (c :: a) ↔ (c ≠ cr ∧ c ≠ lf) ∧ Plain a := by
  simp [Plain]

lemma plain_append : Plain (a ++ b) ↔ Plain a ∧ Plain b := by
  simp only [Plain, List.mem_append]
  exact ⟨fun h => ⟨fun c hc => h c (.inl hc), fun c hc => h c (.inr hc)⟩,
    fun h c hc => hc.elim (h.1 c) (h.2 c)⟩

/-- Plain bytes in front are passed over. -/
lemma scan_append_plain (hp : Plain p) : scan (p ++ x) = (scan x).prepend p := by
  induction p with
  | nil => simp
  | cons c p ih =>
    obtain ⟨⟨h₁, h₂⟩, hp⟩ := plain_cons.mp hp
    rw [List.cons_append, scan_cons_plain h₁ h₂, ih hp, Scan.prepend_prepend]
    rfl

@[simp] lemma scan_crlf (x : Bytes) : scan (cr :: lf :: x) = .line [] x := rfl

lemma scan_lf (x : Bytes) : scan (lf :: x) = .bad [] (lf :: x) := rfl

lemma scan_cr_of_ne (hc : c ≠ lf) (x : Bytes) : scan (cr :: c :: x) = .bad [] (cr :: c :: x) := by
  rw [scan, if_pos rfl, scanCr, if_neg hc]

/-! ### What a scan has found -/

/-- The stream is what the scan says it is. -/
def Scan.Of (x : Bytes) : Scan → Prop
  | .more a held => x = a ++ held ∧ Plain a ∧ (held = [] ∨ held = [cr])
  | .bad a rest => x = a ++ rest ∧ Plain a ∧
    ((∃ b, rest = lf :: b) ∨ ∃ c b, rest = cr :: c :: b ∧ c ≠ lf)
  | .line a rest => x = a ++ cr :: lf :: rest ∧ Plain a

lemma Scan.Of.prepend {s : Scan} (h : s.Of x) (hp : Plain p) : (s.prepend p).Of (p ++ x) := by
  cases s with
  | more a held => exact ⟨by rw [h.1, List.append_assoc], plain_append.mpr ⟨hp, h.2.1⟩, h.2.2⟩
  | bad a rest => exact ⟨by rw [h.1, List.append_assoc], plain_append.mpr ⟨hp, h.2.1⟩, h.2.2⟩
  | line a rest => exact ⟨by rw [h.1, List.append_assoc], plain_append.mpr ⟨hp, h.2⟩⟩

theorem scan_of (x : Bytes) : (scan x).Of x := by
  induction x with
  | nil => exact ⟨rfl, plain_nil, .inl rfl⟩
  | cons c cs ih =>
    rw [scan]
    split
    next hc =>
      subst hc
      cases cs with
      | nil => exact ⟨rfl, plain_nil, .inr rfl⟩
      | cons d ds =>
        rw [scanCr]
        split
        next hd =>
          subst hd
          exact ⟨rfl, plain_nil⟩
        next hd => exact ⟨rfl, plain_nil, .inr ⟨d, ds, rfl, hd⟩⟩
    next hc =>
      split
      next hc' =>
        subst hc'
        exact ⟨rfl, plain_nil, .inl ⟨cs, rfl⟩⟩
      next hc' => exact ih.prepend (plain_cons.mpr ⟨⟨hc, hc'⟩, plain_nil⟩)

lemma scan_eq_line_iff : scan x = .line a rest ↔ x = a ++ cr :: lf :: rest ∧ Plain a := by
  constructor
  · intro h
    have hof := scan_of x
    rwa [h] at hof
  · rintro ⟨rfl, ha⟩
    rw [scan_append_plain ha, scan_crlf]
    simp [Scan.prepend]

lemma scan_eq_bad_iff : scan x = .bad a rest ↔ x = a ++ rest ∧ Plain a ∧
    ((∃ b, rest = lf :: b) ∨ ∃ c b, rest = cr :: c :: b ∧ c ≠ lf) := by
  constructor
  · intro h
    have hof := scan_of x
    rwa [h] at hof
  · rintro ⟨rfl, ha, ⟨b, rfl⟩ | ⟨c, b, rfl, hc⟩⟩
    · rw [scan_append_plain ha, scan_lf]
      simp [Scan.prepend]
    · rw [scan_append_plain ha, scan_cr_of_ne hc]
      simp [Scan.prepend]

/-! ### More bytes -/

/-- A decided scan stays as it is. -/
lemma scan_append_line (h : scan x = .line a rest) (y : Bytes) :
    scan (x ++ y) = .line a (rest ++ y) := by
  obtain ⟨rfl, ha⟩ := scan_eq_line_iff.mp h
  exact scan_eq_line_iff.mpr ⟨by simp, ha⟩

lemma scan_append_bad (h : scan x = .bad a rest) (y : Bytes) :
    scan (x ++ y) = .bad a (rest ++ y) := by
  obtain ⟨rfl, ha, hrest⟩ := scan_eq_bad_iff.mp h
  refine scan_eq_bad_iff.mpr ⟨by simp, ha, ?_⟩
  rcases hrest with ⟨b, rfl⟩ | ⟨c, b, rfl, hc⟩
  · exact .inl ⟨b ++ y, rfl⟩
  · exact .inr ⟨c, b ++ y, rfl, hc⟩

/-- An undecided one goes on with what it holds back. -/
lemma scan_append_more (h : scan x = .more a held) (y : Bytes) :
    scan (x ++ y) = (scan (held ++ y)).prepend a := by
  have hof := scan_of x
  rw [h] at hof
  obtain ⟨rfl, ha, -⟩ := hof
  rw [List.append_assoc, scan_append_plain ha]

/-! ### The first pair, whatever stands before it -/

/-- A CR LF pair at the offset `i`. -/
def PairAt (x : Bytes) (i : ℕ) : Prop := x[i]? = some cr ∧ x[i + 1]? = some lf

instance (x : Bytes) (i : ℕ) : Decidable (PairAt x i) := inferInstanceAs (Decidable (_ ∧ _))

/-- The offset of the first CR LF pair. -/
def firstPair (x : Bytes) : Option ℕ := (List.range x.length).find? fun i => PairAt x i

variable {i : ℕ}

lemma PairAt.lt (h : PairAt x i) : i + 1 < x.length := (List.getElem?_eq_some_iff.mp h.2).1

lemma pairAt_length (p q : Bytes) : PairAt (p ++ cr :: lf :: q) p.length := by
  constructor
  · rw [List.getElem?_append_right le_rfl, Nat.sub_self]
    rfl
  · rw [List.getElem?_append_right (Nat.le_add_right _ 1), Nat.add_sub_cancel_left]
    rfl

lemma PairAt.append (h : PairAt x i) (y : Bytes) : PairAt (x ++ y) i := by
  have hlt := h.lt
  rw [PairAt, List.getElem?_append_left (by omega), List.getElem?_append_left hlt]
  exact h

lemma pairAt_append_of_lt (hi : i + 1 < x.length) : PairAt (x ++ y) i ↔ PairAt x i := by
  rw [PairAt, List.getElem?_append_left (by omega), List.getElem?_append_left hi, PairAt]

lemma firstPair_eq_some : firstPair x = some i ↔ PairAt x i ∧ ∀ j < i, ¬ PairAt x j := by
  rw [firstPair, List.find?_range_eq_some]
  simp only [decide_eq_true_eq, List.mem_range, decide_eq_false_iff_not, Bool.not_eq_true']
  exact ⟨fun h => ⟨h.1, h.2.2⟩, fun h => ⟨h.1, by have := h.1.lt; omega, h.2⟩⟩

lemma firstPair_eq_none : firstPair x = none ↔ ∀ i, ¬ PairAt x i := by
  simp only [firstPair, List.find?_eq_none, List.mem_range, decide_eq_true_eq]
  exact ⟨fun h i hi => h i (by have := hi.lt; omega) hi, fun h i _ => h i⟩

/-- The first pair of a stream is the first one of the bytes received, once it is among them. -/
theorem firstPair_of_prefix (h : x <+: y) :
    firstPair x = (firstPair y).filter fun i => i + 2 ≤ x.length := by
  obtain ⟨z, rfl⟩ := h
  cases hy : firstPair (x ++ z) with
  | none =>
    rw [firstPair_eq_none] at hy
    exact firstPair_eq_none.mpr fun i hi => hy i (hi.append z)
  | some i =>
    obtain ⟨hi, hbefore⟩ := firstPair_eq_some.mp hy
    have hbefore' : ∀ j < i, ¬ PairAt x j := fun j hj hpair => hbefore j hj (hpair.append z)
    by_cases hlt : i + 2 ≤ x.length
    · rw [Option.filter_some_pos (by simpa using hlt)]
      exact firstPair_eq_some.mpr ⟨(pairAt_append_of_lt hlt).mp hi, hbefore'⟩
    · rw [Option.filter_some_neg (by simpa using hlt)]
      apply firstPair_eq_none.mpr
      intro j hj
      have hjlt := hj.lt
      exact hbefore' j (by omega) hj

end Core
