import LinuxServer.Core.Lines

/-!
# `parse_line`

The function that `parse_http.cpp` and `http_conn.cpp` both have, once as a function of a buffer and
two indices and once as a method on members of the same meaning. It is `none` where it would read or
write outside the buffer.
-/

namespace LinuxServer

open Core

/-- `LINE_STATUS` -/
inductive LineStatus
  | lineOk
  | lineBad
  | lineOpen
  deriving DecidableEq

/-- The loop of `parse_line`, with `n` bytes to `readIndex`. -/
def parseLineLoop (buffer : Bytes) (readIndex : ℕ) : ℕ → ℕ → Option (LineStatus × Bytes × ℕ)
  | 0, checkedIndex => some (.lineOpen, buffer, checkedIndex)
  | n + 1, checkedIndex => do
    let temp ← buffer[checkedIndex]?
    if temp = cr then
      if checkedIndex + 1 = readIndex then
        some (.lineOpen, buffer, checkedIndex)
      else do
        let next ← buffer[checkedIndex + 1]?
        if next = lf then do
          let buffer ← nulAt buffer checkedIndex
          let buffer ← nulAt buffer (checkedIndex + 1)
          some (.lineOk, buffer, checkedIndex + 2)
        else
          some (.lineBad, buffer, checkedIndex)
    else if temp = lf then
      if 1 < checkedIndex then do
        let prev ← buffer[checkedIndex - 1]?
        if prev = cr then do
          let buffer ← nulAt buffer (checkedIndex - 1)
          let buffer ← nulAt buffer checkedIndex
          some (.lineOk, buffer, checkedIndex + 1)
        else
          some (.lineBad, buffer, checkedIndex)
      else
        some (.lineBad, buffer, checkedIndex)
    else
      parseLineLoop buffer readIndex n (checkedIndex + 1)

/-- `parse_line(buffer, checked_index, read_index)`, with the buffer and `checked_index` behind it. -/
def parseLine (buffer : Bytes) (checkedIndex readIndex : ℕ) : Option (LineStatus × Bytes × ℕ) :=
  parseLineLoop buffer readIndex (readIndex - checkedIndex) checkedIndex

/-- What `parse_line` makes of the scan of the bytes between `front` and `pad`. -/
def lineResult (front pad : Bytes) : Scan → LineStatus × Bytes × ℕ
  | .more a held => (.lineOpen, front ++ a ++ held ++ pad, front.length + a.length)
  | .bad a rest => (.lineBad, front ++ a ++ rest ++ pad, front.length + a.length)
  | .line a rest => (.lineOk, front ++ a ++ 0 :: 0 :: (rest ++ pad), front.length + a.length + 2)

variable {front pad x : Bytes} {c : UInt8}

lemma lineResult_prepend (c : UInt8) (s : Scan) :
    lineResult front pad (s.prepend [c]) = lineResult (front ++ [c]) pad s := by
  cases s <;> simp [lineResult, Scan.prepend, add_assoc, add_comm, add_left_comm]

lemma parseLineLoop_spec : ∀ (x front : Bytes), front.getLast? ≠ some cr →
    parseLineLoop (front ++ x ++ pad) (front.length + x.length) x.length front.length =
      some (lineResult front pad (scan x))
  | [], front, _ => by simp [parseLineLoop, scan, lineResult]
  | c :: x, front, hlast => by
    have hget : (front ++ (c :: x) ++ pad)[front.length]? = some c := by simp
    rw [List.length_cons, parseLineLoop, hget, Option.bind_eq_bind, Option.bind_some]
    split
    next hc =>
      subst hc
      cases x with
      | nil => simp [scan, scanCr, lineResult]
      | cons d y =>
        have hget' : (front ++ (cr :: d :: y) ++ pad)[front.length + 1]? = some d := by simp
        rw [if_neg (by simp), hget', Option.bind_some]
        split
        next hd =>
          subst hd
          rw [nulAt_of_lt (by simp), Option.bind_eq_bind, Option.bind_some, nulAt_of_lt (by simp),
            Option.bind_some]
          simp [lineResult]
        next hd => simp [scan_cr_of_ne hd, lineResult]
    next hc =>
      split
      next hc' =>
        subst hc'
        -- the byte before is not a CR: a pair is always taken from its first byte
        have hprev : ∀ prev, (front ++ (lf :: x) ++ pad)[front.length - 1]? = some prev →
            1 < front.length → prev ≠ cr := by
          rintro prev hprev hlen rfl
          apply hlast
          rwa [List.getLast?_eq_getElem?, ← List.getElem?_append_left (by omega), ← List.append_assoc]
        have hbad : some (LineStatus.lineBad, front ++ (lf :: x) ++ pad, front.length) =
            some (lineResult front pad (scan (lf :: x))) := by
          simp [scan_lf, lineResult]
        split
        next hlen =>
          have hlt : front.length - 1 < (front ++ (lf :: x) ++ pad).length := by
            simp only [List.length_append]
            omega
          rw [List.getElem?_eq_getElem hlt, Option.bind_some,
            if_neg (hprev _ (List.getElem?_eq_getElem hlt) hlen)]
          exact hbad
        next => exact hbad
      next hc' =>
        have ih := parseLineLoop_spec x (front ++ [c]) (by simpa using hc)
        rw [List.length_append, List.length_singleton, List.append_assoc front] at ih
        rw [scan_cons_plain hc hc', lineResult_prepend, ← ih, add_assoc, add_comm 1]
        rfl

/-- `parse_line` on a buffer with the bytes `x` to scan. -/
theorem parseLine_spec (hlast : front.getLast? ≠ some cr) :
    parseLine (front ++ x ++ pad) front.length (front.length + x.length) =
      some (lineResult front pad (scan x)) := by
  rw [parseLine, Nat.add_sub_cancel_left]
  exact parseLineLoop_spec x front hlast

variable {buffer buffer' : Bytes} {readIndex checkedIndex checkedIndex' : ℕ}

/-- A call that stays below `readIndex`, goes on from `checkedIndex` and makes NULs of bytes CR and LF. -/
structure LineWithin (buffer : Bytes) (checkedIndex readIndex : ℕ) (buffer' : Bytes)
    (checkedIndex' : ℕ) : Prop where
  le : checkedIndex ≤ checkedIndex'
  le_read : checkedIndex' ≤ readIndex
  length : buffer'.length = buffer.length
  bytes : ∀ i : ℕ, buffer'[i]? = buffer[i]? ∨
    buffer'[i]? = some 0 ∧ (buffer[i]? = some cr ∨ buffer[i]? = some lf)

/-- A pair CR LF is made NULs. -/
lemma bytes_nulAt {buffer₁ : Bytes} {n : ℕ} (hcr : buffer[n]? = some cr)
    (hlf : buffer[n + 1]? = some lf) (h₁ : nulAt buffer n = some buffer₁)
    (h : nulAt buffer₁ (n + 1) = some buffer') (i : ℕ) : buffer'[i]? = buffer[i]? ∨
      buffer'[i]? = some 0 ∧ (buffer[i]? = some cr ∨ buffer[i]? = some lf) := by
  obtain ⟨hn, rfl⟩ := nulAt_eq_some.mp h₁
  obtain ⟨hn', rfl⟩ := nulAt_eq_some.mp h
  by_cases hi' : i = n + 1
  · subst hi'
    exact .inr ⟨List.getElem?_set_self hn', .inr hlf⟩
  · rw [List.getElem?_set_ne (Ne.symm hi')]
    by_cases hi : i = n
    · subst hi
      exact .inr ⟨List.getElem?_set_self hn, .inl hcr⟩
    · rw [List.getElem?_set_ne (Ne.symm hi)]
      exact .inl rfl

/-- Without a line nothing is overwritten; a line ends with a pair CR LF, which is made NULs. -/
lemma parseLineLoop_exits {status : LineStatus} : ∀ {n checkedIndex : ℕ},
    parseLineLoop buffer readIndex n checkedIndex = some (status, buffer', checkedIndex') →
      status ≠ .lineOk ∧ buffer' = buffer ∨
        status = .lineOk ∧ (0 < n ∧ checkedIndex < checkedIndex') ∧ ∃ i buffer₁,
          buffer[i]? = some cr ∧ buffer[i + 1]? = some lf ∧
            nulAt buffer i = some buffer₁ ∧ nulAt buffer₁ (i + 1) = some buffer'
  | 0, _, h => by
    cases h
    exact .inl ⟨by decide, rfl⟩
  | n + 1, checkedIndex, h => by
    obtain ⟨temp, htemp, h⟩ := Option.bind_eq_some_iff.mp h
    split at h
    next hcr =>
      split at h
      next =>
        cases h
        exact .inl ⟨by decide, rfl⟩
      next =>
        obtain ⟨next, hnext, h⟩ := Option.bind_eq_some_iff.mp h
        split at h
        next hlf =>
          obtain ⟨buffer₁, h₁, h⟩ := Option.bind_eq_some_iff.mp h
          obtain ⟨buffer₂, h₂, h⟩ := Option.bind_eq_some_iff.mp h
          cases h
          exact .inr ⟨rfl, ⟨Nat.succ_pos n, by omega⟩, checkedIndex, buffer₁, hcr ▸ htemp,
            hlf ▸ hnext, h₁, h₂⟩
        next =>
          cases h
          exact .inl ⟨by decide, rfl⟩
    next =>
      split at h
      next hlf =>
        split at h
        next hpos =>
          obtain ⟨prev, hprev, h⟩ := Option.bind_eq_some_iff.mp h
          split at h
          next hcr =>
            obtain ⟨buffer₁, h₁, h⟩ := Option.bind_eq_some_iff.mp h
            obtain ⟨buffer₂, h₂, h⟩ := Option.bind_eq_some_iff.mp h
            cases h
            -- the pair begins at the byte before
            obtain ⟨i, rfl⟩ : ∃ i, checkedIndex = i + 1 := ⟨checkedIndex - 1, by omega⟩
            exact .inr ⟨rfl, ⟨Nat.succ_pos n, by omega⟩, i, buffer₁, hcr ▸ hprev, hlf ▸ htemp, h₁, h₂⟩
          next =>
            cases h
            exact .inl ⟨by decide, rfl⟩
        next =>
          cases h
          exact .inl ⟨by decide, rfl⟩
      next =>
        rcases parseLineLoop_exits h with hnone | ⟨hok, ⟨-, hlt⟩, hpair⟩
        · exact .inl hnone
        · exact .inr ⟨hok, ⟨Nat.succ_pos n, by omega⟩, hpair⟩

/-- Whatever is found, no bytes are overwritten but CR and LF. -/
lemma parseLineLoop_bytes {status : LineStatus} {n : ℕ}
    (h : parseLineLoop buffer readIndex n checkedIndex = some (status, buffer', checkedIndex'))
    (i : ℕ) : buffer'[i]? = buffer[i]? ∨
      buffer'[i]? = some 0 ∧ (buffer[i]? = some cr ∨ buffer[i]? = some lf) := by
  rcases parseLineLoop_exits h with ⟨-, rfl⟩ | ⟨-, -, n, buffer₁, hcr, hlf, h₁, h₂⟩
  · exact .inl rfl
  · exact bytes_nulAt hcr hlf h₁ h₂ i

lemma parseLineLoop_within : ∀ {n checkedIndex : ℕ}, checkedIndex + n = readIndex →
    readIndex ≤ buffer.length → ∃ status buffer' checkedIndex',
      parseLineLoop buffer readIndex n checkedIndex = some (status, buffer', checkedIndex') ∧
        checkedIndex ≤ checkedIndex' ∧ checkedIndex' ≤ readIndex ∧ buffer'.length = buffer.length
  | 0, checkedIndex, hn, _ => ⟨_, _, _, rfl, le_rfl, hn.le, rfl⟩
  | n + 1, checkedIndex, hn, hle => by
    have hsame : checkedIndex ≤ checkedIndex ∧ checkedIndex ≤ readIndex ∧
        buffer.length = buffer.length := ⟨le_rfl, by omega, rfl⟩
    have hlt : checkedIndex < buffer.length := by omega
    rw [parseLineLoop, List.getElem?_eq_getElem hlt, Option.bind_eq_bind, Option.bind_some]
    split
    next =>
      split
      next => exact ⟨_, _, _, rfl, hsame⟩
      next =>
        have hlt' : checkedIndex + 1 < buffer.length := by omega
        rw [List.getElem?_eq_getElem hlt', Option.bind_some]
        split
        next =>
          rw [nulAt_of_lt hlt, Option.bind_eq_bind, Option.bind_some,
            nulAt_of_lt (by rwa [List.length_set]), Option.bind_some]
          exact ⟨_, _, _, rfl, by omega, by omega, by simp⟩
        next => exact ⟨_, _, _, rfl, hsame⟩
    next =>
      split
      next =>
        split
        next =>
          have hlt' : checkedIndex - 1 < buffer.length := by omega
          rw [List.getElem?_eq_getElem hlt', Option.bind_some]
          split
          next =>
            rw [nulAt_of_lt hlt', Option.bind_eq_bind, Option.bind_some,
              nulAt_of_lt (by rwa [List.length_set]), Option.bind_some]
            exact ⟨_, _, _, rfl, by omega, by omega, by simp⟩
          next => exact ⟨_, _, _, rfl, hsame⟩
        next => exact ⟨_, _, _, rfl, hsame⟩
      next =>
        have hrest : checkedIndex + 1 + n = readIndex := by omega
        obtain ⟨status, buffer', checkedIndex', h, hlt', hrest⟩ := parseLineLoop_within hrest hle
        exact ⟨status, buffer', checkedIndex', h, by omega, hrest⟩

/-- `parse_line` reads and writes below `readIndex` only. -/
theorem parseLine_within (hle : checkedIndex ≤ readIndex) (hlength : readIndex ≤ buffer.length) :
    ∃ status buffer' checkedIndex',
      parseLine buffer checkedIndex readIndex = some (status, buffer', checkedIndex') ∧
        LineWithin buffer checkedIndex readIndex buffer' checkedIndex' := by
  obtain ⟨status, buffer', checkedIndex', h, hle', hread, hsame⟩ :=
    parseLineLoop_within (Nat.add_sub_cancel' hle) hlength
  exact ⟨status, buffer', checkedIndex', h, hle', hread, hsame, parseLineLoop_bytes h⟩

/-- Nothing is overwritten unless a line is found. -/
theorem parseLine_same {status : LineStatus} (hstatus : status ≠ .lineOk)
    (h : parseLine buffer checkedIndex readIndex = some (status, buffer', checkedIndex')) :
    buffer' = buffer := by
  rcases parseLineLoop_exits h with ⟨-, hsame⟩ | ⟨hok, -⟩
  · exact hsame
  · exact absurd hok hstatus

/-- A line that is found is taken off the bytes that are left to scan. -/
theorem parseLine_advances
    (h : parseLine buffer checkedIndex readIndex = some (.lineOk, buffer', checkedIndex')) :
    readIndex - checkedIndex' < readIndex - checkedIndex := by
  rcases parseLineLoop_exits h with ⟨hne, -⟩ | ⟨-, ⟨hpos, hlt⟩, -⟩
  · exact absurd rfl hne
  · omega

end LinuxServer
