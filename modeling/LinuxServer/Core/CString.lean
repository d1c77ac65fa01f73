import Mathlib

/-!
# Strings in a byte buffer

A C string is a place in a buffer: its text is what stands there up to the first NUL. A buffer
without a NUL from there on has no text at that place, and a function that walks along it reads
past the end.

Of `strpbrk`, `strspn`, `strchr`, `strcasecmp` and `strncasecmp` there is what they say of texts, and
what they do on a buffer; of `strncpy` there is what it copies.
-/

namespace Core

abbrev Bytes := List UInt8

/-- The bytes of a string of ASCII characters. -/
def ascii (cs : List Char) : Bytes := cs.map fun c => UInt8.ofNat c.toNat

def cr : UInt8 := 13

def lf : UInt8 := 10

/-- The first text of the bytes; `none` when no NUL ends it. -/
def cstr : Bytes → Option Bytes
  | [] => none
  | c :: cs => if c = 0 then some [] else (cstr cs).map (c :: ·)

/-- The text at the place `p` of a buffer. -/
def textAt (buf : Bytes) (p : ℕ) : Option Bytes := cstr (buf.drop p)

/-- The bytes before the first NUL, or all of them. -/
def cut (line : Bytes) : Bytes := line.takeWhile (· ≠ 0)

/-- The blanks of `" \t"`. -/
def isBlank (c : UInt8) : Bool := c == 32 || c == 9

/-- The offset of the first blank: `strpbrk(t, " \t")`. -/
def strpbrk (t : Bytes) : Option ℕ := t.findIdx? isBlank

/-- The number of blanks in front: `strspn(t, " \t")`. -/
def strspn (t : Bytes) : ℕ := (t.takeWhile isBlank).length

/-- The offset of the first `c`: `strchr(t, c)`. -/
def strchr (t : Bytes) (c : UInt8) : Option ℕ := t.findIdx? (· == c)

/-- `tolower` of the C locale. -/
def toLower (c : UInt8) : UInt8 := if 65 ≤ c ∧ c ≤ 90 then c + 32 else c

/-- `strcasecmp(a, b) == 0` -/
def caseEq (a b : Bytes) : Bool := a.map toLower == b.map toLower

/-- `strncasecmp(a, b, n) == 0` -/
def caseEqN (n : ℕ) (a b : Bytes) : Bool := caseEq (a.take n) (b.take n)

/-! ### On a buffer

A function stops at the byte that decides its result, and it may do so before the NUL. `none` where it
would walk past the end of the buffer. -/

/-- The offset of the first byte that is `stop`. -/
def walk (stop : UInt8 → Bool) : Bytes → Option ℕ
  | [] => none
  | c :: cs => if stop c then some 0 else (walk stop cs).map (· + 1)

/-- The offset of the first byte of the text at `p` that is `find`. -/
def findAt (find : UInt8 → Bool) (buf : Bytes) (p : ℕ) : Option (Option ℕ) :=
  (walk (fun c => c == 0 || find c) (buf.drop p)).map fun i =>
    if buf[p + i]? = some 0 then none else some i

/-- `strpbrk(p, " \t")` -/
def strpbrkAt (buf : Bytes) (p : ℕ) : Option (Option ℕ) := findAt isBlank buf p

/-- `strchr(p, c)` -/
def strchrAt (c : UInt8) (buf : Bytes) (p : ℕ) : Option (Option ℕ) := findAt (· == c) buf p

/-- `strspn(p, " \t")` -/
def strspnAt (buf : Bytes) (p : ℕ) : Option ℕ := walk (fun c => !isBlank c) (buf.drop p)

/-- The bytes of `text`, and a NUL behind them, compared with a buffer without regard to case. -/
def caseCmp : Bytes → Bytes → Option Bool
  | [], _ => none
  | c :: _, [] => some (c == 0)
  | c :: cs, d :: text => if toLower c = toLower d then caseCmp cs text else some false

/-- `strcasecmp(p, text) == 0` -/
def caseEqAt (text : Bytes) (buf : Bytes) (p : ℕ) : Option Bool := caseCmp (buf.drop p) text

/-- The first `n` bytes of `text` compared with a buffer without regard to case. -/
def caseCmpN : ℕ → Bytes → Bytes → Option Bool
  | 0, _, _ => some true
  | _ + 1, [], _ => none
  | _ + 1, c :: _, [] => some (c == 0)
  | n + 1, c :: cs, d :: text => if toLower c = toLower d then caseCmpN n cs text else some false

/-- `strncasecmp(p, text, n) == 0` -/
def caseEqNAt (n : ℕ) (text : Bytes) (buf : Bytes) (p : ℕ) : Option Bool :=
  caseCmpN n (buf.drop p) text

/-- The `n` bytes that `strncpy` writes: the text, and NULs behind it. -/
def copyN : ℕ → Bytes → Option Bytes
  | 0, _ => some []
  | _ + 1, [] => none
  | n + 1, c :: cs => if c = 0 then some (List.replicate (n + 1) 0) else (copyN n cs).map (c :: ·)

/-- What `strncpy(q, p, n)` writes at `q`. -/
def strncpyAt (n : ℕ) (buf : Bytes) (p : ℕ) : Option Bytes := copyN n (buf.drop p)

/-- `*p = '\0'`. `none` where it would write outside of the buffer. -/
def nulAt (buf : Bytes) (p : ℕ) : Option Bytes := buf[p]?.map fun _ => buf.set p 0

/-- Bytes are written at the place `p`. -/
def putAt (buf : Bytes) (p : ℕ) (bytes : Bytes) : Bytes :=
  buf.take p ++ bytes ++ buf.drop (p + bytes.length)

variable {line tail front : Bytes} {i k : ℕ}

/-- The characters of a text of bytes. -/
lemma map_ascii {cs : List Char} (h : ∀ d ∈ cs, d.toNat < 256) :
    (ascii cs).map (fun b => Char.ofNat b.toNat) = cs := by
  rw [ascii, List.map_map]
  refine (List.map_congr_left fun d hd => ?_).trans (List.map_id cs)
  have hmod : d.toNat % 2 ^ 8 = d.toNat := Nat.mod_eq_of_lt (h d hd)
  rw [Function.comp_apply, UInt8.toNat_ofNat', hmod, Char.ofNat_toNat, id]

section Write

variable {buf buf' : Bytes} {p : ℕ}

lemma nulAt_of_lt (h : p < buf.length) : nulAt buf p = some (buf.set p 0) := by
  rw [nulAt, List.getElem?_eq_getElem h, Option.map_some]

lemma nulAt_eq_some : nulAt buf p = some buf' ↔ p < buf.length ∧ buf' = buf.set p 0 := by
  rw [nulAt, Option.map_eq_some_iff]
  constructor
  · rintro ⟨c, hc, rfl⟩
    exact ⟨(List.getElem?_eq_some_iff.mp hc).1, rfl⟩
  · rintro ⟨h, rfl⟩
    exact ⟨_, List.getElem?_eq_getElem h, rfl⟩

end Write

lemma cstr_append (line tail : Bytes) : cstr (line ++ 0 :: tail) = some (cut line) := by
  induction line with
  | nil => rfl
  | cons c cs ih =>
    by_cases hc : c = 0
    · simp [cstr, cut, hc]
    · simp only [cut] at ih
      simp [cstr, cut, hc, ih]

/-- The text at the start of a buffer. -/
lemma textAt_zero (line tail : Bytes) : textAt (line ++ 0 :: tail) 0 = some (cut line) :=
  cstr_append line tail

/-- A text in a line that a NUL ends. -/
lemma textAt_append (hk : k ≤ line.length) :
    textAt (front ++ line ++ 0 :: tail) (front.length + k) = some (cut (line.drop k)) := by
  rw [textAt, List.append_assoc, List.drop_length_add_append, List.drop_append_of_le_length hk,
    cstr_append]

/-- An assignment to a byte of the line. -/
lemma set_append (x : UInt8) (hi : i < line.length) :
    (front ++ line ++ 0 :: tail).set (front.length + i) x = front ++ line.set i x ++ 0 :: tail := by
  rw [List.append_assoc, List.set_append_right _ _ (by omega), Nat.add_sub_cancel_left,
    List.set_append_left _ _ hi, List.append_assoc]

/-- The byte at a place is the first one of the text there, or the NUL behind it. -/
lemma getElem?_append (hk : k ≤ line.length) :
    (front ++ line ++ 0 :: tail)[front.length + k]? = some ((cut (line.drop k)).headD 0) := by
  have hdrop : (front ++ line ++ 0 :: tail).drop (front.length + k) = line.drop k ++ 0 :: tail := by
    rw [List.append_assoc, List.drop_length_add_append, List.drop_append_of_le_length hk]
  rw [← List.head?_drop, hdrop]
  cases line.drop k with
  | nil => rfl
  | cons c cs => by_cases hc : c = 0 <;> simp [cut, hc]

/-! ### The text of a line -/

lemma zero_notMem_cut (line : Bytes) : (0 : UInt8) ∉ cut line := by
  intro h
  simpa using List.mem_takeWhile_imp h

lemma headD_cut_eq_zero : (cut line).headD 0 = 0 ↔ cut line = [] := by
  cases h : cut line with
  | nil => simp
  | cons c cs =>
    have hc : c ≠ 0 := fun hc => zero_notMem_cut line (by rw [h, hc]; exact List.mem_cons_self)
    simp [hc]

lemma length_cut_le (line : Bytes) : (cut line).length ≤ line.length :=
  (List.takeWhile_sublist _).length_le

lemma cut_cons_of_ne {c : UInt8} (hc : c ≠ 0) : cut (c :: line) = c :: cut line := by
  simp [cut, hc]

lemma cut_append {a : Bytes} (ha : (0 : UInt8) ∉ a) (b : Bytes) : cut (a ++ b) = a ++ cut b :=
  List.takeWhile_append_of_pos fun _ hc => decide_eq_true fun heq => ha (heq ▸ hc)

lemma cut_prefix_append (a b : Bytes) : cut a <+: cut (a ++ b) := by
  rw [cut, cut, List.takeWhile_append]
  split
  next => exact (List.takeWhile_prefix _).trans (List.prefix_append _ _)
  next => exact List.prefix_rfl

lemma cut_append_of_mem {a : Bytes} (h : (0 : UInt8) ∈ a) (b : Bytes) : cut (a ++ b) = cut a := by
  rw [cut, cut, List.takeWhile_append, if_neg]
  intro hlen
  have hself : cut a = a := (List.takeWhile_prefix _).eq_of_length hlen
  exact zero_notMem_cut a (by rwa [hself])

/-- The text from a place inside the text. -/
lemma cut_drop (hk : k ≤ (cut line).length) : cut (line.drop k) = (cut line).drop k := by
  induction line generalizing k with
  | nil => simp [cut]
  | cons c cs ih =>
    cases k with
    | zero => rfl
    | succ k =>
      have hc : c ≠ 0 := by
        rintro rfl
        simp [cut] at hk
      rw [cut_cons_of_ne hc] at hk ⊢
      exact ih (Nat.le_of_succ_le_succ hk)

/-- The text in front of a byte of the text that was made NUL. -/
lemma cut_set (hi : i < (cut line).length) : cut (line.set i 0) = (cut line).take i := by
  induction line generalizing i with
  | nil => simp [cut] at hi
  | cons c cs ih =>
    have hc : c ≠ 0 := by
      rintro rfl
      simp [cut] at hi
    rw [cut_cons_of_ne hc] at hi ⊢
    cases i with
    | zero => simp [cut]
    | succ i =>
      rw [List.set_cons_succ, cut_cons_of_ne hc, ih (Nat.lt_of_succ_lt_succ hi), List.take_succ_cons]

lemma drop_set_of_lt {x : UInt8} (h : i < k) : (line.set i x).drop k = line.drop k := by
  rw [List.drop_set, if_pos h]

lemma strpbrk_lt {t : Bytes} (h : strpbrk t = some i) : i < t.length :=
  (List.findIdx?_eq_some_iff_getElem.mp h).1

lemma strspn_le (t : Bytes) : strspn t ≤ t.length := (List.takeWhile_sublist _).length_le

lemma drop_strspn (t : Bytes) : t.drop (strspn t) = t.dropWhile isBlank := by
  have ht := List.takeWhile_append_dropWhile (p := isBlank) (l := t)
  calc t.drop (strspn t)
      = (t.takeWhile isBlank ++ t.dropWhile isBlank).drop (strspn t) := by rw [ht]
    _ = t.dropWhile isBlank := List.drop_left

/-! ### The functions at a text

What the functions on a buffer do at a place where a text stands is what they say of the text. -/

section Text

variable {buf t : Bytes} {p n : ℕ} {c : UInt8}

lemma cstr_eq_some : ∀ {buf t : Bytes},
    cstr buf = some t ↔ (0 : UInt8) ∉ t ∧ ∃ tail, buf = t ++ 0 :: tail
  | [], t => by simp [cstr]
  | c :: cs, t => by
    rw [cstr]
    split
    next hc =>
      subst hc
      cases t with
      | nil => simp
      | cons d ds =>
        refine iff_of_false nofun ?_
        rintro ⟨hd, tail, heq⟩
        rw [List.cons_append, List.cons.injEq] at heq
        exact hd (heq.1 ▸ List.mem_cons_self)
    next hc =>
      rw [Option.map_eq_some_iff]
      cases t with
      | nil =>
        refine iff_of_false nofun ?_
        rintro ⟨-, tail, heq⟩
        rw [List.nil_append, List.cons.injEq] at heq
        exact hc heq.1
      | cons d ds =>
        simp only [cstr_eq_some, List.mem_cons, List.cons_append, List.cons.injEq]
        constructor
        · rintro ⟨t, ⟨ht, tail, rfl⟩, rfl, rfl⟩
          exact ⟨by simp [ht, Ne.symm hc], tail, rfl, rfl⟩
        · rintro ⟨hd, tail, rfl, rfl⟩
          exact ⟨ds, ⟨fun hds => hd (.inr hds), tail, rfl⟩, rfl, rfl⟩

lemma textAt_eq_some :
    textAt buf p = some t ↔ (0 : UInt8) ∉ t ∧ ∃ tail, buf.drop p = t ++ 0 :: tail := cstr_eq_some

lemma textAt_lt (h : textAt buf p = some t) : p + t.length < buf.length := by
  obtain ⟨-, tail, hdrop⟩ := textAt_eq_some.mp h
  have hlength := congrArg List.length hdrop
  rw [List.length_drop, List.length_append, List.length_cons] at hlength
  omega

/-- A NUL at or behind a place ends a text there. -/
lemma exists_textAt {z : ℕ} (hp : p ≤ z) (hz : buf[z]? = some 0) :
    ∃ t, textAt buf p = some t ∧ p + t.length ≤ z := by
  have hdrop : (buf.drop p)[z - p]? = some 0 := by
    rw [List.getElem?_drop, Nat.add_sub_cancel' hp, hz]
  obtain ⟨hlt, hget⟩ := List.getElem?_eq_some_iff.mp hdrop
  have hsplit : buf.drop p = (buf.drop p).take (z - p) ++ 0 :: (buf.drop p).drop (z - p + 1) := by
    rw [← hget, ← List.drop_eq_getElem_cons hlt, List.take_append_drop]
  refine ⟨cut ((buf.drop p).take (z - p)), ?_, ?_⟩
  · rw [textAt, hsplit, cstr_append, ← hsplit]
  · have hle := length_cut_le ((buf.drop p).take (z - p))
    rw [List.length_take] at hle
    omega

lemma textAt_drop (h : textAt buf p = some t) (hk : k ≤ t.length) :
    textAt buf (p + k) = some (t.drop k) := by
  obtain ⟨ht, tail, hdrop⟩ := textAt_eq_some.mp h
  refine textAt_eq_some.mpr ⟨fun hmem => ht (List.mem_of_mem_drop hmem), tail, ?_⟩
  rw [← List.drop_drop, hdrop, List.drop_append_of_le_length hk]

/-- The byte at a text is its first one, or the NUL behind it. -/
lemma getElem?_textAt (h : textAt buf p = some t) : buf[p]? = some (t.headD 0) := by
  obtain ⟨-, tail, hdrop⟩ := textAt_eq_some.mp h
  rw [← List.head?_drop, hdrop]
  cases t <;> rfl

/-- A byte of the text is made NUL: the text in front of it. -/
lemma textAt_set_take (h : textAt buf p = some t) (hi : i < t.length) :
    textAt (buf.set (p + i) 0) p = some (t.take i) := by
  obtain ⟨ht, tail, hdrop⟩ := textAt_eq_some.mp h
  refine textAt_eq_some.mpr ⟨fun hmem => ht (List.mem_of_mem_take hmem), t.drop (i + 1) ++ 0 :: tail, ?_⟩
  have hlt : ¬ p + i < p := by omega
  rw [List.drop_set, if_neg hlt, Nat.add_sub_cancel_left, hdrop, List.set_append_left _ _ hi,
    List.set_eq_take_append_cons_drop, if_pos hi, List.append_assoc, List.cons_append]

/-- A byte of the text is made NUL: the text behind it. -/
lemma textAt_set_drop (h : textAt buf p = some t) (hik : i < k) (hk : k ≤ t.length) :
    textAt (buf.set (p + i) 0) (p + k) = some (t.drop k) := by
  rw [textAt, drop_set_of_lt (by omega), ← textAt, textAt_drop h hk]

lemma walk_append {stop : UInt8 → Bool} (hstop : stop 0 = true) (t tail : Bytes) :
    walk stop (t ++ 0 :: tail) = some (t.findIdx stop) := by
  induction t with
  | nil => simp [walk, hstop]
  | cons c cs ih =>
    rw [List.cons_append, walk, List.findIdx_cons, ih]
    cases stop c <;> rfl

lemma findAt_textAt {find : UInt8 → Bool} (h : textAt buf p = some t) :
    findAt find buf p = some (t.findIdx? find) := by
  obtain ⟨ht, tail, hdrop⟩ := textAt_eq_some.mp h
  have hstop : t.findIdx (fun c => c == 0 || find c) = t.findIdx find := by
    have hne : ∀ c ∈ t, c ≠ 0 := fun c hc heq => ht (heq ▸ hc)
    apply le_antisymm
    · exact List.findIdx_le_findIdx fun c _ hfind => by simp [hfind]
    · exact List.findIdx_le_findIdx fun c hc hfind => by simpa [hne c hc] using hfind
  have hbyte : buf[p + t.findIdx find]? = (t ++ 0 :: tail)[t.findIdx find]? := by
    rw [← hdrop, List.getElem?_drop]
  rw [findAt, hdrop, walk_append (by simp), hstop, Option.map_some, hbyte]
  by_cases hlt : t.findIdx find < t.length
  · have hne : t[t.findIdx find] ≠ 0 := fun heq => ht (heq ▸ List.getElem_mem hlt)
    rw [List.getElem?_append_left hlt, List.getElem?_eq_getElem hlt, if_neg (by simpa using hne)]
    exact congrArg some (List.findIdx?_eq_some_iff_findIdx_eq.mpr ⟨hlt, rfl⟩).symm
  · have hlength : t.findIdx find = t.length := le_antisymm List.findIdx_le_length (not_lt.mp hlt)
    rw [hlength, List.getElem?_append_right le_rfl, Nat.sub_self, List.getElem?_cons_zero, if_pos rfl]
    exact congrArg some (List.findIdx?_eq_none_iff_findIdx_eq.mpr hlength).symm

lemma strpbrkAt_textAt (h : textAt buf p = some t) : strpbrkAt buf p = some (strpbrk t) :=
  findAt_textAt h

lemma strchrAt_textAt (h : textAt buf p = some t) : strchrAt c buf p = some (strchr t c) :=
  findAt_textAt h

lemma findIdx_not_isBlank (t : Bytes) : t.findIdx (fun c => !isBlank c) = strspn t := by
  rw [strspn]
  induction t with
  | nil => rfl
  | cons c cs ih =>
    rw [List.findIdx_cons, List.takeWhile_cons]
    cases isBlank c <;> simp [ih]

lemma strspnAt_textAt (h : textAt buf p = some t) : strspnAt buf p = some (strspn t) := by
  obtain ⟨-, tail, hdrop⟩ := textAt_eq_some.mp h
  rw [strspnAt, hdrop, walk_append rfl, findIdx_not_isBlank]

/-- A byte in front of the letters is no letter in lower case. -/
lemma toLower_eq_iff {d : UInt8} (hd : d < 65) : toLower c = d ↔ c = d := by
  rw [toLower]
  split
  next hc =>
    rw [UInt8.le_iff_toNat_le, UInt8.le_iff_toNat_le] at hc
    rw [UInt8.lt_iff_toNat_lt] at hd
    rw [← UInt8.toNat_inj, ← UInt8.toNat_inj, UInt8.toNat_add]
    simp only [UInt8.reduceToNat] at hc hd ⊢
    omega
  next => exact Iff.rfl

lemma isBlank_toLower (c : UInt8) : isBlank (toLower c) = isBlank c := by
  have hspace : toLower c = 32 ↔ c = 32 := toLower_eq_iff (by decide)
  have htab : toLower c = 9 ↔ c = 9 := toLower_eq_iff (by decide)
  rw [Bool.eq_iff_iff]
  simp [isBlank, hspace, htab]

lemma caseCmp_append : ∀ {t text : Bytes} (tail : Bytes), (0 : UInt8) ∉ t → (0 : UInt8) ∉ text →
    caseCmp (t ++ 0 :: tail) text = some (caseEq t text)
  | [], [], _, _, _ => rfl
  | [], d :: text, tail, _, htext => by
    have hd : ¬ toLower 0 = toLower d := by
      intro heq
      have hzero : d = 0 := (toLower_eq_iff (by decide)).mp heq.symm
      exact htext (hzero ▸ List.mem_cons_self)
    rw [List.nil_append, caseCmp, if_neg hd]
    rfl
  | c :: t, [], tail, ht, _ => by
    have hc : c ≠ 0 := fun heq => ht (heq ▸ List.mem_cons_self)
    simp [caseCmp, caseEq, hc]
  | c :: t, d :: text, tail, ht, htext => by
    have ih := caseCmp_append tail (fun h => ht (List.mem_cons_of_mem c h))
      (fun h => htext (List.mem_cons_of_mem d h))
    rw [List.cons_append, caseCmp, ih, caseEq, caseEq, List.map_cons, List.map_cons]
    split
    next heq => simp [heq]
    next hne => simp [hne]

lemma caseEqAt_textAt {text : Bytes} (h : textAt buf p = some t) (htext : (0 : UInt8) ∉ text) :
    caseEqAt text buf p = some (caseEq t text) := by
  obtain ⟨ht, tail, hdrop⟩ := textAt_eq_some.mp h
  rw [caseEqAt, hdrop, caseCmp_append tail ht htext]

lemma caseCmpN_append : ∀ {n : ℕ} {t text : Bytes} (tail : Bytes), (0 : UInt8) ∉ t →
    (0 : UInt8) ∉ text → caseCmpN n (t ++ 0 :: tail) text = some (caseEqN n t text)
  | 0, _, _, _, _, _ => by simp [caseCmpN, caseEqN, caseEq]
  | n + 1, [], [], _, _, _ => by simp [caseCmpN, caseEqN, caseEq]
  | n + 1, [], d :: text, tail, _, htext => by
    have hd : ¬ toLower 0 = toLower d := by
      intro heq
      have hzero : d = 0 := (toLower_eq_iff (by decide)).mp heq.symm
      exact htext (hzero ▸ List.mem_cons_self)
    rw [List.nil_append, caseCmpN, if_neg hd]
    rfl
  | n + 1, c :: t, [], tail, ht, _ => by
    have hc : c ≠ 0 := fun heq => ht (heq ▸ List.mem_cons_self)
    simp [caseCmpN, caseEqN, caseEq, hc]
  | n + 1, c :: t, d :: text, tail, ht, htext => by
    have ih := caseCmpN_append (n := n) tail (fun h => ht (List.mem_cons_of_mem c h))
      (fun h => htext (List.mem_cons_of_mem d h))
    rw [List.cons_append, caseCmpN, ih, caseEqN, caseEqN, caseEq, caseEq, List.take_succ_cons,
      List.take_succ_cons, List.map_cons, List.map_cons]
    split
    next heq => simp [heq]
    next hne => simp [hne]

lemma caseEqNAt_textAt {text : Bytes} (h : textAt buf p = some t) (htext : (0 : UInt8) ∉ text) :
    caseEqNAt n text buf p = some (caseEqN n t text) := by
  obtain ⟨ht, tail, hdrop⟩ := textAt_eq_some.mp h
  rw [caseEqNAt, hdrop, caseCmpN_append tail ht htext]

/-- What `strncpy` copies of a text. -/
lemma copyN_append : ∀ {n : ℕ} {t : Bytes} (tail : Bytes), (0 : UInt8) ∉ t →
    copyN n (t ++ 0 :: tail) = some (t.take n ++ List.replicate (n - t.length) 0)
  | 0, _, _, _ => by simp [copyN]
  | n + 1, [], _, _ => by simp [copyN]
  | n + 1, c :: t, tail, ht => by
    have hc : c ≠ 0 := fun heq => ht (heq ▸ List.mem_cons_self)
    rw [List.cons_append, copyN, if_neg hc, copyN_append tail fun h => ht (List.mem_cons_of_mem c h)]
    simp

lemma strncpyAt_textAt (h : textAt buf p = some t) :
    strncpyAt n buf p = some (t.take n ++ List.replicate (n - t.length) 0) := by
  obtain ⟨ht, tail, hdrop⟩ := textAt_eq_some.mp h
  rw [strncpyAt, hdrop, copyN_append tail ht]

lemma cut_drop_textAt (h : textAt buf p = some t) : cut (buf.drop p) = t := by
  obtain ⟨ht, tail, hdrop⟩ := textAt_eq_some.mp h
  rw [hdrop, cut_append ht]
  simp [cut]

/-- What `strncpy` writes, also of a text that no NUL ends. -/
lemma copyN_eq_some : ∀ {n : ℕ} {bytes name : Bytes}, copyN n bytes = some name →
    name.length = n ∧ cut name = (cut bytes).take n
  | 0, bytes, name, h => by
    cases h
    exact ⟨rfl, rfl⟩
  | n + 1, [], name, h => by cases h
  | n + 1, c :: cs, name, h => by
    rw [copyN] at h
    split at h
    next hc =>
      cases h
      subst hc
      exact ⟨List.length_replicate, by simp [cut, List.replicate_succ]⟩
    next hc =>
      obtain ⟨rest, hrest, rfl⟩ := Option.map_eq_some_iff.mp h
      obtain ⟨hlength, hcut⟩ := copyN_eq_some hrest
      rw [cut_cons_of_ne hc, cut_cons_of_ne hc, hcut, List.take_succ_cons, List.length_cons, hlength]
      exact ⟨rfl, rfl⟩

end Text

/-! ### A longer buffer

What a function decides in front of the end of a buffer does not depend on what stands behind it. -/

section Longer

variable {buf buf' tail : Bytes} {p n : ℕ}

lemma walk_longer {stop : UInt8 → Bool} (tail : Bytes) : ∀ {x : Bytes} {i : ℕ}, walk stop x = some i →
    walk stop (x ++ tail) = some i ∧ i < x.length
  | [], _, h => by cases h
  | c :: cs, i, h => by
    rw [walk] at h
    rw [List.cons_append, walk, List.length_cons]
    split at h
    next hc =>
      cases h
      exact ⟨if_pos hc, Nat.succ_pos _⟩
    next hc =>
      obtain ⟨j, hj, rfl⟩ := Option.map_eq_some_iff.mp h
      obtain ⟨hsame, hlt⟩ := walk_longer tail hj
      rw [if_neg hc, hsame]
      exact ⟨rfl, Nat.succ_lt_succ hlt⟩

/-- A walk that ends is of a place in the buffer. -/
lemma drop_longer {stop : UInt8 → Bool} {i : ℕ} (tail : Bytes) (h : walk stop (buf.drop p) = some i) :
    (buf ++ tail).drop p = buf.drop p ++ tail ∧ p + i < buf.length := by
  have hlt := (walk_longer tail h).2
  rw [List.length_drop] at hlt
  exact ⟨List.drop_append_of_le_length (by omega), by omega⟩

lemma findAt_longer {find : UInt8 → Bool} {r : Option ℕ} (tail : Bytes)
    (h : findAt find buf p = some r) : findAt find (buf ++ tail) p = some r := by
  obtain ⟨i, hi, rfl⟩ := Option.map_eq_some_iff.mp h
  obtain ⟨hdrop, hlt⟩ := drop_longer tail hi
  rw [findAt, hdrop, (walk_longer tail hi).1, Option.map_some, List.getElem?_append_left hlt]

lemma strspnAt_longer {i : ℕ} (tail : Bytes) (h : strspnAt buf p = some i) :
    strspnAt (buf ++ tail) p = some i := by
  rw [strspnAt, (drop_longer tail h).1]
  exact (walk_longer tail h).1

lemma drop_longer_of_ne_nil (tail : Bytes) (h : buf.drop p ≠ []) :
    (buf ++ tail).drop p = buf.drop p ++ tail := by
  rw [ne_eq, List.drop_eq_nil_iff, not_le] at h
  exact List.drop_append_of_le_length h.le

lemma caseCmp_longer (tail : Bytes) : ∀ {x text : Bytes} {b : Bool}, caseCmp x text = some b →
    caseCmp (x ++ tail) text = some b
  | [], _, _, h => by cases h
  | _ :: _, [], _, h => h
  | c :: cs, d :: text, b, h => by
    rw [caseCmp] at h
    rw [List.cons_append, caseCmp]
    split at h
    next heq => rw [if_pos heq, caseCmp_longer tail h]
    next hne => rw [if_neg hne, h]

lemma caseEqAt_longer {text : Bytes} {b : Bool} (tail : Bytes) (h : caseEqAt text buf p = some b) :
    caseEqAt text (buf ++ tail) p = some b := by
  have hne : buf.drop p ≠ [] := by
    intro hnil
    rw [caseEqAt, hnil] at h
    cases h
  rw [caseEqAt, drop_longer_of_ne_nil tail hne]
  exact caseCmp_longer tail h

lemma caseCmpN_longer (tail : Bytes) : ∀ {n : ℕ} {x text : Bytes} {b : Bool},
    caseCmpN n x text = some b → caseCmpN n (x ++ tail) text = some b
  | 0, _, _, _, h => by
    rw [caseCmpN] at h ⊢
    exact h
  | _ + 1, [], _, _, h => by cases h
  | _ + 1, _ :: _, [], _, h => h
  | n + 1, c :: cs, d :: text, b, h => by
    rw [caseCmpN] at h
    rw [List.cons_append, caseCmpN]
    split at h
    next heq => rw [if_pos heq, caseCmpN_longer tail h]
    next hne => rw [if_neg hne, h]

lemma caseEqNAt_longer {text : Bytes} {b : Bool} (tail : Bytes)
    (h : caseEqNAt (n + 1) text buf p = some b) : caseEqNAt (n + 1) text (buf ++ tail) p = some b := by
  have hne : buf.drop p ≠ [] := by
    intro hnil
    rw [caseEqNAt, hnil] at h
    cases h
  rw [caseEqNAt, drop_longer_of_ne_nil tail hne]
  exact caseCmpN_longer tail h

lemma getElem?_longer {c : UInt8} (tail : Bytes) (h : buf[p]? = some c) :
    (buf ++ tail)[p]? = some c := by
  rw [List.getElem?_append_left (List.getElem?_eq_some_iff.mp h).1, h]

lemma nulAt_longer (tail : Bytes) (h : nulAt buf p = some buf') :
    nulAt (buf ++ tail) p = some (buf' ++ tail) := by
  obtain ⟨hlt, rfl⟩ := nulAt_eq_some.mp h
  rw [nulAt_eq_some, List.set_append_left _ _ hlt, List.length_append]
  exact ⟨by omega, rfl⟩

end Longer

/-! ### Words -/

/-- Bytes without blanks. -/
def Word (w : Bytes) : Prop := ∀ c ∈ w, isBlank c = false

instance (w : Bytes) : Decidable (Word w) :=
  decidable_of_iff (w.all fun c => !isBlank c) (by simp [Word])

/-- One blank or more. -/
def Blanks (b : Bytes) : Prop := b ≠ [] ∧ ∀ c ∈ b, isBlank c = true

/-- No blank in front. -/
def Unblank (r : Bytes) : Prop := ∀ c ∈ r.head?, isBlank c = false

variable {t w r : Bytes}

lemma Word.unblank_append (hw : Word w) (hne : w ≠ []) : Unblank (w ++ r) := by
  cases w with
  | nil => exact absurd rfl hne
  | cons c cs => simpa [Unblank] using hw c List.mem_cons_self

/-- The comparison without regard to case sees the blanks. -/
lemma Word.of_caseEq (hw : Word w) (h : caseEq t w = true) : Word t := by
  intro c hc
  have hmem : toLower c ∈ w.map toLower := beq_iff_eq.mp h ▸ List.mem_map_of_mem hc
  obtain ⟨d, hd, heq⟩ := List.mem_map.mp hmem
  rw [← isBlank_toLower, ← heq, isBlank_toLower]
  exact hw d hd

lemma Word.unblank (hw : Word w) : Unblank w := fun c hc => hw c (List.mem_of_mem_head? hc)

lemma Unblank.dropWhile (h : Unblank r) : r.dropWhile isBlank = r := by
  cases r with
  | nil => rfl
  | cons c cs => rw [List.dropWhile_cons_of_neg (by simpa [Unblank] using h)]

lemma unblank_dropWhile (t : Bytes) : Unblank (t.dropWhile isBlank) := by
  intro c hc
  have h := List.head?_dropWhile_not isBlank t
  rw [Option.mem_def.mp hc] at h
  simpa using h

lemma strpbrk_eq_some : strpbrk t = some i ↔
    ∃ w c r, t = w ++ c :: r ∧ w.length = i ∧ Word w ∧ isBlank c = true := by
  constructor
  · intro h
    obtain ⟨hlt, hi, hbefore⟩ := List.findIdx?_eq_some_iff_getElem.mp h
    refine ⟨t.take i, t[i], t.drop (i + 1), ?_, List.length_take_of_le hlt.le, ?_, hi⟩
    · rw [← List.drop_eq_getElem_cons hlt, List.take_append_drop]
    · intro c hc
      obtain ⟨j, hj, rfl⟩ := List.getElem_of_mem hc
      rw [List.length_take] at hj
      simpa using hbefore j (by omega)
  · rintro ⟨w, c, r, rfl, rfl, hw, hc⟩
    have hnone : List.findIdx? isBlank w = none := List.findIdx?_eq_none_iff.mpr hw
    simp [strpbrk, List.findIdx?_append, hnone, List.findIdx?_cons, hc]

/-- The first word of a text and what stands behind the blanks that follow it. -/
lemma strpbrk_iff : (∃ i, strpbrk t = some i ∧ t.take i = w ∧ (t.drop (i + 1)).dropWhile isBlank = r) ↔
    ∃ b, t = w ++ b ++ r ∧ Word w ∧ Blanks b ∧ Unblank r := by
  constructor
  · rintro ⟨i, hi, rfl, rfl⟩
    obtain ⟨w, c, r, rfl, rfl, hw, hc⟩ := strpbrk_eq_some.mp hi
    have hdrop : (w ++ c :: r).drop (w.length + 1) = r := by simp
    rw [List.take_left, hdrop]
    refine ⟨c :: r.takeWhile isBlank, ?_, hw, ⟨by simp, ?_⟩, unblank_dropWhile r⟩
    · simp
    · simpa using ⟨hc, fun d hd => List.mem_takeWhile_imp hd⟩
  · rintro ⟨b, rfl, hw, ⟨hne, hb⟩, hr⟩
    cases b with
    | nil => exact absurd rfl hne
    | cons c b =>
      rw [List.forall_mem_cons] at hb
      refine ⟨w.length, strpbrk_eq_some.mpr ⟨w, c, b ++ r, by simp, rfl, hw, hb.1⟩, by simp, ?_⟩
      have hdrop : (w ++ c :: b ++ r).drop (w.length + 1) = b ++ r := by simp
      rw [hdrop, List.dropWhile_append_of_pos hb.2, hr.dropWhile]

end Core
